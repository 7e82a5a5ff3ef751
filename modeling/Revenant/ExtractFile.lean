import Mathlib.Data.List.Induction
import Revenant.Arbitration
import Revenant.BlockDevices
import Revenant.Sha256

/-!
# Copying one winner into its file

The extents of a winner are read in bounded chunks, each of which is written and
hashed on its way past.  A read that comes up short fails the copy, so a copy
that succeeds has put down every chunk of every extent in order.
-/

namespace Revenant

/-- A byte source whose reads change it: retries, caches and damage maps are
state. -/
structure Reader (State : Type) where
  sizeInBytes : Nat
  readAt : (offset bufferSize : Nat) → State → Result Bytes × State

/-- What the destination does with one file: it refuses to open it, or takes so
many of its bytes (all of them when `takes` is `none`).  One that has refused a
byte refuses the flush as well.  `noRoom` is what a failed write finds out about
the space left, and `removes` whether the file can be removed again. -/
structure Medium where
  refuses : Bool
  takes : Option Nat
  noRoom : Bool
  removes : Bool

namespace Medium

def writeFailureAt (medium : Medium) : ErrorCode :=
  if medium.noRoom then .kStorageExhausted else .kIoFailure

/-- What is in the file after `content` was put into it. -/
def leaves (medium : Medium) (content : Bytes) : Bytes :=
  match medium.takes with
  | none => content
  | some limit => content.take limit

def good (medium : Medium) (content : Bytes) : Bool :=
  match medium.takes with
  | none => true
  | some limit => content.length ≤ limit

theorem leaves_of_good {medium : Medium} {content : Bytes} (fits : medium.good content = true) :
    medium.leaves content = content := by
  unfold good at fits
  unfold leaves
  split at fits
  · simp_all
  · simp_all [List.take_of_length_le]

end Medium

/-- What was written, and what was in it. -/
structure ExtractedFile where
  bytes : Nat
  content : Sha256Digest

namespace ExtractFile

def kExtractChunkBytes : Nat := 2 ^ 20

theorem kExtractChunkBytes_pos : 0 < kExtractChunkBytes := Nat.two_pow_pos 20

/-- The bytes handed to the file so far and the digest taken of them on the way:
nothing is written without being hashed. -/
structure Output where
  file : Bytes
  hash : Sha256
  hashed : hash = Sha256.initial.update file

namespace Output

def empty : Output := ⟨[], Sha256.initial.update [], rfl⟩

def put (out : Output) (raw : Bytes) : Output where
  file := out.file ++ raw
  hash := out.hash.update raw
  hashed := by rw [out.hashed, Sha256.update_update]

@[simp]
theorem file_put (out : Output) (raw : Bytes) : (out.put raw).file = out.file ++ raw := rfl

theorem finish_hash (out : Output) : out.hash.finish = Sha256.sha256 out.file := by
  rw [out.hashed, Sha256.sha256]

end Output

/-- Where a copy has got to: how many bytes are down or the error that stopped
it, the output, and the device its reads have left. -/
structure Copying (State : Type) where
  done : Result Nat
  out : Output
  device : State

section Copying

variable {State : Type} (reader : Reader State)

def copyChunk (offset want : Nat) (out : Output) (device : State) : Copying State :=
  match reader.readAt offset want device with
  | (.error failure, after) => ⟨.error failure, out, after⟩
  | (.ok got, after) =>
      if got.length = want then ⟨.ok want, out.put got, after⟩
      else ⟨.error { code := .kOutOfRange, offset := offset }, out, after⟩

/-- One turn of the loop over an extent. -/
def copyNext (extent : Extent) (done : Nat) (copying : Copying State) : Copying State :=
  let want := min kExtractChunkBytes (extent.lengthBytes.toNat - done)
  let copied := copyChunk reader ((extent.deviceOffset.toNat + done) % 2 ^ 64) want
    copying.out copying.device
  { copied with done := copied.done.map (done + ·) }

def advance (extent : Extent) : (rounds : Nat) → Copying State → Copying State
  | 0, copying => copying
  | rounds + 1, copying =>
      match copying.done with
      | .error _ => copying
      | .ok done =>
          if done < extent.lengthBytes.toNat then advance extent rounds (copyNext reader extent done copying)
          else copying

/-- Every turn but the last copies a whole chunk, which bounds the turns. -/
def advanceExtent (extent : Extent) (out : Output) (device : State) : Copying State :=
  advance reader extent (extent.lengthBytes.toNat / kExtractChunkBytes + 1) ⟨.ok 0, out, device⟩

/-- The running total; the error of the extent just copied hides an older one. -/
def plusExtent (total copied : Result Nat) : Result Nat :=
  match total, copied with
  | .ok total, .ok copied => .ok ((total + copied) % 2 ^ 64)
  | .error failure, .ok _ => .error failure
  | _, .error failure => .error failure

def copyExtent (copying : Copying State) (extent : Extent) : Copying State :=
  let copied := advanceExtent reader extent copying.out copying.device
  { copied with done := plusExtent copying.done copied.done }

/-- Every extent is copied, also behind one that failed. -/
def copyExtents (extents : List Extent) (out : Output) (device : State) : Copying State :=
  extents.foldl (copyExtent reader) ⟨.ok 0, out, device⟩

def flushed (medium : Medium) (out : Output) (written : Nat) : Result Nat :=
  if medium.good out.file then .ok written
  else .error { code := medium.writeFailureAt, offset := written }

def copyInto (medium : Medium) (winner : Candidate) (out : Output) (device : State) :
    Copying State :=
  if winner.extents = [] then
    let out := out.put winner.residentContent
    ⟨flushed medium out winner.residentContent.length, out, device⟩
  else
    let copied := copyExtents reader winner.extents out device
    { copied with done := copied.done.bind (flushed medium copied.out) }

/-- The outcome of an extraction, what it left in the file (`none` when the file
was never opened), and the device. -/
structure Extracting (State : Type) where
  result : Result ExtractedFile
  file : Option Bytes
  device : State

def extractTo (medium : Medium) (winner : Candidate) (device : State) : Extracting State :=
  if medium.refuses then ⟨.error { code := medium.writeFailureAt }, none, device⟩
  else
    let copied := copyInto reader medium winner Output.empty device
    ⟨copied.done.map (⟨·, copied.out.hash.finish⟩), some (medium.leaves copied.out.file),
      copied.device⟩

end Copying

section Specification

variable {State : Type} (reader : Reader State) (extent : Extent)

/-- What a turn of the loop can do. -/
theorem copyNext_cases (done : Nat) (copying : Copying State) :
    (∃ failure, (copyNext reader extent done copying).done = .error failure) ∨
      ∃ got after,
        reader.readAt ((extent.deviceOffset.toNat + done) % 2 ^ 64)
            (min kExtractChunkBytes (extent.lengthBytes.toNat - done)) copying.device =
          (.ok got, after) ∧
        got.length = min kExtractChunkBytes (extent.lengthBytes.toNat - done) ∧
          copyNext reader extent done copying =
            ⟨.ok (done + got.length), copying.out.put got, after⟩ := by
  rcases read : reader.readAt ((extent.deviceOffset.toNat + done) % 2 ^ 64)
      (min kExtractChunkBytes (extent.lengthBytes.toNat - done)) copying.device with
    ⟨failure | got, after⟩
  · exact .inl ⟨failure, by simp only [copyNext, copyChunk, read, Except.map]⟩
  · by_cases whole : got.length = min kExtractChunkBytes (extent.lengthBytes.toNat - done)
    · refine .inr ⟨got, after, rfl, whole, ?_⟩
      simp only [copyNext, copyChunk, read, whole, if_true, Except.map]
    · left
      simp only [copyNext, copyChunk, read, whole, if_false, Except.map]
      exact ⟨_, rfl⟩

/-- The rule of the chunk loop: what every full chunk read preserves holds of the
whole extent when the loop ends without an error. -/
theorem advance_invariant (invariant : Nat → Bytes → State → Prop)
    (chunk : ∀ {done : Nat} {file : Bytes} {device : State} {got : Bytes} {after : State},
      invariant done file device → done < extent.lengthBytes.toNat →
        reader.readAt ((extent.deviceOffset.toNat + done) % 2 ^ 64)
            (min kExtractChunkBytes (extent.lengthBytes.toNat - done)) device = (.ok got, after) →
          got.length = min kExtractChunkBytes (extent.lengthBytes.toNat - done) →
            invariant (done + got.length) (file ++ got) after)
    {rounds done total : Nat} {out : Output} {device : State}
    (initially : invariant done out.file device) (inside : done ≤ extent.lengthBytes.toNat)
    (enough : extent.lengthBytes.toNat ≤ done + rounds * kExtractChunkBytes)
    (ended : (advance reader extent rounds ⟨.ok done, out, device⟩).done = .ok total) :
    total = extent.lengthBytes.toNat ∧
      invariant total (advance reader extent rounds ⟨.ok done, out, device⟩).out.file
        (advance reader extent rounds ⟨.ok done, out, device⟩).device := by
  induction rounds generalizing done out device with
  | zero =>
      cases ended
      exact ⟨by omega, initially⟩
  | succ rounds ih =>
      rw [advance] at ended ⊢
      by_cases more : done < extent.lengthBytes.toNat
      · simp only [more, if_true] at ended ⊢
        rcases copyNext_cases reader extent done ⟨.ok done, out, device⟩ with
          ⟨failure, failed⟩ | ⟨got, after, read, whole, next⟩
        · cases rounds <;> simp [advance, failed] at ended
        · rw [next] at ended ⊢
          rw [Nat.succ_mul] at enough
          exact ih (chunk initially more read whole) (by omega) (by omega) ended
      · simp only [more, if_false] at ended ⊢
        cases ended
        exact ⟨by omega, initially⟩

theorem advanceExtent_invariant (invariant : Nat → Bytes → State → Prop)
    (chunk : ∀ {done : Nat} {file : Bytes} {device : State} {got : Bytes} {after : State},
      invariant done file device → done < extent.lengthBytes.toNat →
        reader.readAt ((extent.deviceOffset.toNat + done) % 2 ^ 64)
            (min kExtractChunkBytes (extent.lengthBytes.toNat - done)) device = (.ok got, after) →
          got.length = min kExtractChunkBytes (extent.lengthBytes.toNat - done) →
            invariant (done + got.length) (file ++ got) after)
    {total : Nat} {out : Output} {device : State} (initially : invariant 0 out.file device)
    (ended : (advanceExtent reader extent out device).done = .ok total) :
    total = extent.lengthBytes.toNat ∧
      invariant total (advanceExtent reader extent out device).out.file
        (advanceExtent reader extent out device).device := by
  refine advance_invariant reader extent invariant chunk initially (Nat.zero_le _) ?_ ended
  have split := Nat.div_add_mod extent.lengthBytes.toNat kExtractChunkBytes
  have small := Nat.mod_lt extent.lengthBytes.toNat kExtractChunkBytes_pos
  rw [Nat.succ_mul, Nat.mul_comm]
  omega

/-- Every chunk the loop asks for is there. -/
def ReadsWhole (reader : Reader State) (extent : Extent) : Prop :=
  ∀ done < extent.lengthBytes.toNat, ∀ device, ∃ got after,
    reader.readAt ((extent.deviceOffset.toNat + done) % 2 ^ 64)
        (min kExtractChunkBytes (extent.lengthBytes.toNat - done)) device = (.ok got, after) ∧
      got.length = min kExtractChunkBytes (extent.lengthBytes.toNat - done)

theorem advance_succeeds {reader : Reader State} {extent : Extent} (whole : ReadsWhole reader extent)
    (rounds done : Nat) (out : Output) (device : State) :
    ∃ total, (advance reader extent rounds ⟨.ok done, out, device⟩).done = .ok total := by
  induction rounds generalizing done out device with
  | zero => exact ⟨done, rfl⟩
  | succ rounds ih =>
      rw [advance]
      by_cases more : done < extent.lengthBytes.toNat
      · simp only [more, if_true]
        obtain ⟨got, after, read, length⟩ := whole done more device
        have next : copyNext reader extent done ⟨.ok done, out, device⟩ =
            ⟨.ok (done + got.length), out.put got, after⟩ := by
          simp only [copyNext, copyChunk, read, length, if_true, Except.map]
        rw [next]
        exact ih _ _ _
      · simp only [more, if_false]
        exact ⟨done, rfl⟩

theorem copyExtent_ok {copying : Copying State} {extent : Extent} {total : Nat}
    (ended : (copyExtent reader copying extent).done = .ok total) :
    ∃ before copied, copying.done = .ok before ∧
      (advanceExtent reader extent copying.out copying.device).done = .ok copied ∧
        total = (before + copied) % 2 ^ 64 := by
  unfold copyExtent plusExtent at ended
  cases before : copying.done <;>
    cases copied : (advanceExtent reader extent copying.out copying.device).done <;>
      simp only [before, copied, reduceCtorEq] at ended
  case ok.ok =>
    cases ended
    exact ⟨_, _, rfl, rfl, rfl⟩

/-- The rule of the fold over extents.  An error anywhere is still an error at
the end, so behind a success every extent was copied whole. -/
theorem copyExtents_invariant (invariant : List Extent → Bytes → State → Prop)
    (whole : ∀ {copied : List Extent} {extent : Extent} {out : Output} {device : State} {total : Nat},
      invariant copied out.file device →
        (advanceExtent reader extent out device).done = .ok total →
          invariant (copied ++ [extent]) (advanceExtent reader extent out device).out.file
            (advanceExtent reader extent out device).device)
    (extents : List Extent) {out : Output} {device : State} {total : Nat}
    (initially : invariant [] out.file device)
    (ended : (copyExtents reader extents out device).done = .ok total) :
    invariant extents (copyExtents reader extents out device).out.file
        (copyExtents reader extents out device).device ∧
      total = (extents.map fun extent => extent.lengthBytes.toNat).sum % 2 ^ 64 := by
  induction extents using List.reverseRecOn generalizing total with
  | nil =>
      cases ended
      exact ⟨initially, rfl⟩
  | append_singleton extents extent ih =>
      simp only [copyExtents, List.foldl_append, List.foldl_cons, List.foldl_nil] at ended ih ⊢
      obtain ⟨before, copied, doneBefore, doneHere, totalEq⟩ := copyExtent_ok reader ended
      obtain ⟨held, beforeEq⟩ := ih doneBefore
      obtain ⟨copiedEq, _⟩ := advanceExtent_invariant reader extent (fun _ _ _ => True)
        (fun _ _ _ _ => trivial) trivial doneHere
      refine ⟨whole held doneHere, ?_⟩
      rw [totalEq, beforeEq, copiedEq, List.map_append, List.sum_append, List.map_singleton,
        List.sum_singleton, Nat.mod_add_mod]

/-- A device that reads every extent in full never stops the copy. -/
theorem copyExtents_succeeds {reader : Reader State} (extents : List Extent)
    (whole : ∀ extent ∈ extents, ReadsWhole reader extent) (out : Output) (device : State) :
    ∃ total, (copyExtents reader extents out device).done = .ok total := by
  induction extents using List.reverseRecOn with
  | nil => exact ⟨0, rfl⟩
  | append_singleton extents extent ih =>
      obtain ⟨before, doneBefore⟩ := ih fun earlier member =>
        whole earlier (List.mem_append_left _ member)
      simp only [copyExtents, List.foldl_append, List.foldl_cons, List.foldl_nil] at doneBefore ⊢
      obtain ⟨copied, doneHere⟩ := advance_succeeds
        (whole extent (List.mem_append_right _ (List.mem_singleton_self extent)))
        (extent.lengthBytes.toNat / kExtractChunkBytes + 1) 0
        (extents.foldl (copyExtent reader) ⟨.ok 0, out, device⟩).out
        (extents.foldl (copyExtent reader) ⟨.ok 0, out, device⟩).device
      refine ⟨(before + copied) % 2 ^ 64, ?_⟩
      simp only [copyExtent, advanceExtent, doneBefore, doneHere, plusExtent]

theorem flushed_ok {medium : Medium} {out : Output} {written total : Nat}
    (ended : flushed medium out written = .ok total) :
    medium.good out.file = true ∧ total = written := by
  unfold flushed at ended
  split at ended
  case isTrue fits =>
    cases ended
    exact ⟨fits, rfl⟩
  case isFalse => cases ended

theorem copyInto_resident {winner : Candidate} (resident : winner.extents = []) (medium : Medium)
    (out : Output) (device : State) :
    copyInto reader medium winner out device =
      ⟨flushed medium (out.put winner.residentContent) winner.residentContent.length,
        out.put winner.residentContent, device⟩ := by
  simp only [copyInto, resident, if_true]

/-- A copy out of extents that succeeded put down what the extents gave. -/
theorem copyInto_extents {winner : Candidate} (extents : winner.extents ≠ []) {medium : Medium}
    {out : Output} {device : State} {written : Nat}
    (ended : (copyInto reader medium winner out device).done = .ok written) :
    (copyExtents reader winner.extents out device).done = .ok written ∧
      medium.good (copyExtents reader winner.extents out device).out.file = true ∧
        (copyInto reader medium winner out device).out =
            (copyExtents reader winner.extents out device).out ∧
          (copyInto reader medium winner out device).device =
            (copyExtents reader winner.extents out device).device := by
  simp only [copyInto, extents, if_false] at ended ⊢
  cases copied : (copyExtents reader winner.extents out device).done with
  | error failure => simp [copied, Except.bind] at ended
  | ok total =>
      rw [copied] at ended
      obtain ⟨fits, same⟩ := flushed_ok ended
      exact ⟨by rw [same], fits, trivial, trivial⟩

/-- A successful extraction leaves everything it put, under its digest. -/
theorem extractTo_ok {medium : Medium} {winner : Candidate} {device : State}
    {extracted : ExtractedFile}
    (written : (extractTo reader medium winner device).result = .ok extracted) :
    (copyInto reader medium winner Output.empty device).done = .ok extracted.bytes ∧
      (extractTo reader medium winner device).file =
          some (copyInto reader medium winner Output.empty device).out.file ∧
        (extractTo reader medium winner device).device =
            (copyInto reader medium winner Output.empty device).device ∧
          extracted.content =
            Sha256.sha256 (copyInto reader medium winner Output.empty device).out.file := by
  unfold extractTo at written ⊢
  split at written
  case isTrue => cases written
  case isFalse opened =>
    simp only [opened, Bool.false_eq_true, if_false]
    cases copied : (copyInto reader medium winner Output.empty device).done with
    | error failure => simp [copied, Except.map] at written
    | ok total =>
        have fits : medium.good (copyInto reader medium winner Output.empty device).out.file = true := by
          by_cases resident : winner.extents = []
          · rw [copyInto_resident reader resident] at copied ⊢
            exact (flushed_ok copied).1
          · obtain ⟨_, fits, same, _⟩ := copyInto_extents reader resident copied
            rw [same]
            exact fits
        simp only [copied, Except.map, Except.ok.injEq] at written
        subst written
        exact ⟨rfl, by rw [Medium.leaves_of_good fits], trivial, Output.finish_hash _⟩

/-- A destination that takes everything and a device that reads everything write
the file. -/
theorem extractTo_succeeds {reader : Reader State} (winner : Candidate)
    (whole : ∀ extent ∈ winner.extents, ReadsWhole reader extent) {medium : Medium}
    (opens : medium.refuses = false) (takesAll : medium.takes = none) (device : State) :
    ∃ extracted, (extractTo reader medium winner device).result = .ok extracted := by
  have good (out : Output) : medium.good out.file = true := by
    simp only [Medium.good, takesAll]
  have copied : ∃ written, (copyInto reader medium winner Output.empty device).done = .ok written := by
    by_cases resident : winner.extents = []
    · rw [copyInto_resident reader resident]
      exact ⟨_, by rw [flushed, if_pos (good _)]⟩
    · obtain ⟨total, done⟩ := copyExtents_succeeds winner.extents whole Output.empty device
      refine ⟨total, ?_⟩
      simp only [copyInto, resident, if_false, done, Except.bind, flushed, good, if_true]
  obtain ⟨written, done⟩ := copied
  refine ⟨⟨written, (copyInto reader medium winner Output.empty device).out.hash.finish⟩, ?_⟩
  simp only [extractTo, opens, Bool.false_eq_true, if_false, done, Except.map]

/-- Where the error of a copy comes from: a read that failed, or one that came up
short. -/
def CopyError (reader : Reader State) (failure : Error) : Prop :=
  failure.code = .kOutOfRange ∨
    ∃ offset want device, (reader.readAt offset want device).1 = .error failure

theorem copyNext_error {extent : Extent} {done : Nat} {copying : Copying State} {failure : Error}
    (failed : (copyNext reader extent done copying).done = .error failure) :
    CopyError reader failure := by
  rcases read : reader.readAt ((extent.deviceOffset.toNat + done) % 2 ^ 64)
      (min kExtractChunkBytes (extent.lengthBytes.toNat - done)) copying.device with
    ⟨early | got, after⟩
  · simp only [copyNext, copyChunk, read, Except.map, Except.error.injEq] at failed
    exact .inr ⟨_, _, _, by rw [read, failed]⟩
  · by_cases whole : got.length = min kExtractChunkBytes (extent.lengthBytes.toNat - done)
    · simp only [copyNext, copyChunk, read, whole, if_true, Except.map, reduceCtorEq] at failed
    · simp only [copyNext, copyChunk, read, whole, if_false, Except.map] at failed
      cases failed
      exact .inl rfl

theorem advance_error {extent : Extent} {rounds : Nat} {copying : Copying State} {failure : Error}
    (started : ∀ earlier, copying.done = .error earlier → CopyError reader earlier)
    (failed : (advance reader extent rounds copying).done = .error failure) :
    CopyError reader failure := by
  induction rounds generalizing copying with
  | zero => exact started failure failed
  | succ rounds ih =>
      rw [advance] at failed
      split at failed
      case h_1 earlier early => exact started failure failed
      case h_2 done going =>
        split at failed
        · exact ih (fun earlier stopped => copyNext_error reader stopped) failed
        · exact started failure failed

theorem copyExtents_error {extents : List Extent} {out : Output} {device : State} {failure : Error}
    (failed : (copyExtents reader extents out device).done = .error failure) :
    CopyError reader failure := by
  induction extents using List.reverseRecOn generalizing failure with
  | nil => cases failed
  | append_singleton extents extent ih =>
      simp only [copyExtents, List.foldl_append, List.foldl_cons, List.foldl_nil] at failed ih
      rw [copyExtent] at failed
      revert failed
      generalize copied : advanceExtent reader extent _ _ = copying
      intro failed
      have here (later : Error) (stopped : copying.done = .error later) : CopyError reader later := by
        rw [← copied] at stopped
        exact advance_error reader (fun earlier start => by cases start) stopped
      simp only [plusExtent] at failed
      split at failed
      · cases failed
      case h_2 earlier stopped _ =>
        cases failed
        exact ih stopped
      case h_3 later stopped =>
        cases failed
        exact here _ stopped

/-- Where the error of an extraction comes from. -/
theorem extractTo_error {medium : Medium} {winner : Candidate} {device : State} {failure : Error}
    (failed : (extractTo reader medium winner device).result = .error failure) :
    failure.code = medium.writeFailureAt ∨ CopyError reader failure := by
  have flush (out : Output) (written : Nat) (stopped : flushed medium out written = .error failure) :
      failure.code = medium.writeFailureAt := by
    unfold flushed at stopped
    split at stopped <;> cases stopped
    rfl
  unfold extractTo at failed
  split at failed
  · cases failed
    exact .inl rfl
  · cases copied : (copyInto reader medium winner Output.empty device).done with
    | ok total => simp [copied, Except.map] at failed
    | error earlier =>
        simp only [copied, Except.map, Except.error.injEq] at failed
        subst failed
        unfold copyInto at copied
        split at copied
        · exact .inl (flush _ _ copied)
        · cases extents : (copyExtents reader winner.extents Output.empty device).done with
          | ok total =>
              simp only [extents, Except.bind] at copied
              exact .inl (flush _ _ copied)
          | error first =>
              simp only [extents, Except.bind, Except.error.injEq] at copied
              subst copied
              exact .inr (copyExtents_error reader extents)

end Specification

section Images

/-- An image as the sink reads it: reading leaves no trace. -/
def imageReader (image : Image) : Reader Unit where
  sizeInBytes := image.bytes.length
  readAt offset bufferSize device := (image.device.readAt offset bufferSize, device)

/-- The extent has no bytes, or all of them are on the image. -/
def Inside (image : Image) (extent : Extent) : Prop :=
  extent.lengthBytes.toNat = 0 ∨
    extent.deviceOffset.toNat + extent.lengthBytes.toNat ≤ image.bytes.length

theorem readsWhole_of_inside {image : Image} {extent : Extent} (inside : Inside image extent) :
    ReadsWhole (imageReader image) extent := by
  intro done more device
  have addressable := image.addressable
  have ends : extent.deviceOffset.toNat + extent.lengthBytes.toNat ≤ image.bytes.length :=
    inside.resolve_left (by omega)
  have small : extent.deviceOffset.toNat + done < 2 ^ 64 := by omega
  rw [Nat.mod_eq_of_lt small]
  refine ⟨_, device, Prod.ext (image.readAt_eq ?_) rfl, ?_⟩
  · unfold kMax
    omega
  · rw [List.length_take, List.length_drop]
    omega

/-- A full read of something is on the image. -/
theorem le_length_of_readAt {image : Image} {offset want : Nat} {got : Bytes} {device after : Unit}
    (read : (imageReader image).readAt offset want device = (.ok got, after)) (whole : got.length = want)
    (positive : 0 < want) : offset + want ≤ image.bytes.length := by
  have fits : want ≤ kMax - offset := by
    by_contra wide
    simp only [imageReader, Image.device, clampReadRange, Nat.lt_of_not_le wide, if_true, bind,
      Except.bind, Prod.mk.injEq, reduceCtorEq, false_and] at read
  have same := (Prod.mk.inj read).1
  rw [image.readAt_eq fits] at same
  cases same
  rw [List.length_take, List.length_drop] at whole
  omega

theorem inside_of_advanceExtent {image : Image} {extent : Extent} {out : Output} {total : Nat}
    (ended : (advanceExtent (imageReader image) extent out ()).done = .ok total) :
    Inside image extent := by
  have addressable := image.addressable
  have chunk := kExtractChunkBytes_pos
  obtain ⟨totalEq, inside⟩ := advanceExtent_invariant (imageReader image) extent
    (fun done _ _ => done = 0 ∨ extent.deviceOffset.toNat + done ≤ image.bytes.length)
    (fun {done file device got after} held more read whole => by
      right
      have read := le_length_of_readAt read whole (by omega)
      have word := extent.deviceOffset.toNat_lt
      have small : extent.deviceOffset.toNat + done < 2 ^ 64 := by
        rcases held with start | further
        · omega
        · omega
      rw [Nat.mod_eq_of_lt small] at read
      omega)
    (.inl rfl) ended
  rw [totalEq] at inside
  exact inside

/-- An image has no error that would end a run. -/
theorem copyError_image {image : Image} {failure : Error}
    (failed : CopyError (imageReader image) failure) :
    failure.code = .kOutOfRange ∨ failure.code = .kOverflow := by
  rcases failed with short | ⟨offset, want, device, read⟩
  · exact .inl short
  · right
    simp only [imageReader, Image.device, clampReadRange, bind, Except.bind] at read
    split at read
    case h_1 earlier clamped =>
      cases read
      split at clamped
      · cases clamped
        rfl
      · split at clamped <;> cases clamped
    case h_2 => cases read

/-- On an image and a destination that takes everything, a file is written
exactly when all of its extents are on the image. -/
theorem extractTo_image_iff {image : Image} {winner : Candidate} {medium : Medium}
    (opens : medium.refuses = false) (takesAll : medium.takes = none) :
    (∃ extracted, (extractTo (imageReader image) medium winner ()).result = .ok extracted) ↔
      ∀ extent ∈ winner.extents, Inside image extent := by
  constructor
  · rintro ⟨extracted, written⟩
    obtain ⟨done, -⟩ := extractTo_ok (imageReader image) written
    by_cases resident : winner.extents = []
    · simp [resident]
    · obtain ⟨copied, -⟩ := copyInto_extents (imageReader image) resident done
      refine (copyExtents_invariant (imageReader image)
        (fun copied _ _ => ∀ extent ∈ copied, Inside image extent) ?_ winner.extents ?_ copied).1
      · intro earlier extent out device total held ended later member
        rcases List.mem_append.mp member with member | member
        · exact held later member
        · rw [List.mem_singleton.mp member]
          exact inside_of_advanceExtent ended
      · simp
  · intro inside
    exact extractTo_succeeds winner
      (fun extent member => readsWhole_of_inside (inside extent member)) opens takesAll ()

end Images

end ExtractFile
end Revenant
