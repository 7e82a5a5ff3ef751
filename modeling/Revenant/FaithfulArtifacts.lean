import Mathlib.Data.UInt
import Revenant.FaithfulReading
import Revenant.WrittenTurns

/-!
# Whether an artifact is the source's

A copy puts down chunk after chunk of extent after extent.  Each byte of it is the
source's own or is told by the damage map, which forgets nothing until the records
are marked with it.
-/

namespace Revenant

open DamageMap ExtentSpan ExtractFile OutputPath

section Kept

variable {State : Type} {reader : Reader State} {kept : State → Prop}

/-- No read loses what is so of the device. -/
def Reader.Keeps (reader : Reader State) (kept : State → Prop) : Prop :=
  ∀ offset want device, kept device → kept (reader.readAt offset want device).2

namespace Reader.Keeps

variable (keeps : reader.Keeps kept)

include keeps

theorem copyNext (extent : Extent) (done : Nat) {copying : Copying State}
    (before : kept copying.device) : kept (copyNext reader extent done copying).device := by
  unfold ExtractFile.copyNext copyChunk
  have after := keeps ((extent.deviceOffset.toNat + done) % 2 ^ 64)
    (min kExtractChunkBytes (extent.lengthBytes.toNat - done)) copying.device before
  dsimp only
  rcases read : reader.readAt ((extent.deviceOffset.toNat + done) % 2 ^ 64)
    (min kExtractChunkBytes (extent.lengthBytes.toNat - done)) copying.device with
    ⟨failure | got, left⟩
  · rw [read] at after
    exact after
  · rw [read] at after
    dsimp only
    split <;> exact after

theorem advance (extent : Extent) (rounds : Nat) {copying : Copying State}
    (before : kept copying.device) : kept (advance reader extent rounds copying).device := by
  induction rounds generalizing copying with
  | zero => exact before
  | succ rounds ih =>
      rw [ExtractFile.advance]
      split
      · exact before
      · split
        · exact ih (keeps.copyNext extent _ before)
        · exact before

theorem copyExtents (extents : List Extent) (out : Output) {device : State}
    (before : kept device) : kept (copyExtents reader extents out device).device := by
  unfold ExtractFile.copyExtents
  generalize start : (⟨.ok 0, out, device⟩ : Copying State) = copying
  replace before : kept copying.device := by rw [← start]; exact before
  clear start
  induction extents generalizing copying with
  | nil => exact before
  | cons extent extents ih => exact ih _ (keeps.advance extent _ before)

theorem extractTo (medium : Medium) (winner : Candidate) {device : State}
    (before : kept device) : kept (extractTo reader medium winner device).device := by
  unfold ExtractFile.extractTo copyInto
  split
  · exact before
  · split
    · exact before
    · exact keeps.copyExtents winner.extents Output.empty before

end Reader.Keeps

namespace RecoverySink

variable {contained : OutputPath → Bool}

@[simp]
theorem device_record (medium : Medium) (winner : Candidate) (written : Result WrittenFile)
    (sink : RecoverySink State) : (record medium winner written sink).device = sink.device := by
  unfold record
  split
  · rfl
  · split <;> rfl

theorem writeOne_device (medium : Medium) (item : Ordered) (sink : RecoverySink State) :
    (writeOne contained reader medium item sink).device =
      (write contained reader medium item sink).2.device := by
  unfold writeOne
  dsimp only
  split
  · exact device_record ..
  · split <;> exact device_record ..

theorem writeOne_kept (keeps : reader.Keeps kept) (medium : Medium) (item : Ordered)
    {sink : RecoverySink State} (before : kept sink.device) :
    kept (writeOne contained reader medium item sink).device := by
  obtain ⟨renamed, claimedSink⟩ := claimName_snd contained item sink
  rw [writeOne_device]
  rcases write_cases contained reader medium item sink with
    ⟨-, failed⟩ | ⟨claimed, target, -, -, wroteTo⟩
  · rw [failed, claimedSink]
    exact before
  · rw [wroteTo, claimedSink]
    exact keeps.extractTo _ item.winner before

/-- Nor does any number of turns. -/
theorem sinkAt_kept (keeps : reader.Keeps kept) {media : Nat → Medium} {winners : List Candidate}
    {destination : Destination} {device : State} {first last : Nat} (later : first ≤ last)
    (before : kept (sinkAt contained reader media winners destination device first).device) :
    kept (sinkAt contained reader media winners destination device last).device := by
  induction last, later using Nat.le_induction with
  | base => exact before
  | succ last later ih =>
      unfold sinkAt at ih ⊢
      rw [afterTurns]
      split
      · exact ih
      · exact writeOne_kept keeps _ _ ih

end RecoverySink

end Kept

section Chunks

variable {State : Type}

/-- How far an extent can be read chunk by chunk, each chunk in full. -/
inductive ReadTo (reader : Reader State) (extent : Extent) (device : State) : Nat → State → Prop
  | start : ReadTo reader extent device 0 device
  | chunk {done : Nat} {before after : State} {got : Bytes} :
      ReadTo reader extent device done before → done < extent.lengthBytes.toNat →
        reader.readAt ((extent.deviceOffset.toNat + done) % 2 ^ 64)
            (min kExtractChunkBytes (extent.lengthBytes.toNat - done)) before = (.ok got, after) →
          got.length = min kExtractChunkBytes (extent.lengthBytes.toNat - done) →
            ReadTo reader extent device (done + got.length) after

/-- Every extent can be read in full, one behind the other. -/
inductive ReadEach (reader : Reader State) (device : State) : List Extent → State → Prop
  | nil : ReadEach reader device [] device
  | snoc {extents : List Extent} {extent : Extent} {before after : State} :
      ReadEach reader device extents before →
        ReadTo reader extent before extent.lengthBytes.toNat after →
          ReadEach reader device (extents ++ [extent]) after

/-- A copy that succeeds has read every extent in full. -/
theorem readEach_of_copied {reader : Reader State} {extents : List Extent} {out : Output}
    {device : State} {total : Nat}
    (ended : (copyExtents reader extents out device).done = .ok total) :
    ReadEach reader device extents (copyExtents reader extents out device).device := by
  have step {copied : List Extent} {extent : Extent} {out : Output} {before : State} {total : Nat}
      (reached : ReadEach reader device copied before)
      (whole : (advanceExtent reader extent out before).done = .ok total) :
      ReadEach reader device (copied ++ [extent])
        (advanceExtent reader extent out before).device := by
    obtain ⟨rfl, read⟩ := advanceExtent_invariant reader extent
      (fun done _ after => ReadTo reader extent before done after)
      (fun sofar more read full => .chunk sofar more read full) .start whole
    exact .snoc reached read
  exact (copyExtents_invariant reader (fun copied _ after => ReadEach reader device copied after)
    step extents .nil ended).1

end Chunks

/-- The bytes of the source that extents name, in order, met through a view that
begins at `startBytes`. -/
def positions (startBytes : Nat) (extents : List Extent) : List Nat :=
  extents.flatMap fun extent =>
    List.range' (startBytes + extent.deviceOffset.toNat) extent.lengthBytes.toNat

section Positions

variable {startBytes : Nat}

@[simp]
theorem positions_append (first second : List Extent) :
    positions startBytes (first ++ second) =
      positions startBytes first ++ positions startBytes second :=
  List.flatMap_append

@[simp]
theorem positions_singleton (extent : Extent) :
    positions startBytes [extent] =
      List.range' (startBytes + extent.deviceOffset.toNat) extent.lengthBytes.toNat :=
  List.flatMap_singleton ..

theorem mem_positions {extents : List Extent} {byte : Nat} :
    byte ∈ positions startBytes extents ↔ ∃ extent ∈ extents, extent.Names startBytes byte := by
  simp [positions, Extent.Names, List.mem_flatMap]

end Positions

/-- The byte is the source's own there, or the map tells of it. -/
def Truthful (source : UnsteadySource) (bad : List BadRange) (byte : Nat) (value : UInt8) : Prop :=
  source.bytes[byte]? = some value ∨ Told bad byte

theorem Truthful.mono {source : UnsteadySource} {bad later : List BadRange}
    (told : ∀ byte, Told bad byte → Told later byte) {positions : List Nat} {file : Bytes}
    (truthful : List.Forall₂ (Truthful source bad) positions file) :
    List.Forall₂ (Truthful source later) positions file :=
  truthful.imp fun byte _ own => own.imp_right (told byte)

theorem truthful_of_faithful {source : UnsteadySource} {offset : Nat} {got : Bytes}
    {bad : List BadRange} (faithful : RetryingDevice.Faithful source offset got bad) :
    List.Forall₂ (Truthful source bad) (List.range' offset got.length) got := by
  rw [List.forall₂_iff_get]
  refine ⟨List.length_range', fun index _ below => ?_⟩
  have own := faithful index below
  rw [List.getElem?_eq_getElem below] at own
  simpa [Truthful, eq_comm] using own

namespace DeliverySource

open RetryingDevice

variable (from_ : DeliverySource)

/-- No read loses what a device remembers. -/
theorem keeps_remembers (earlier : RetryingDevice) : from_.device.Keeps (Remembers earlier) :=
  fun offset want _ before => before.trans (from_.device_faithful before.inOrder offset want).1

/-- What a copy has put down, if all of it has a place, is truthful. -/
structure TruthfulCopy (extents : List Extent) (file : Bytes) (device : RetryingDevice) : Prop where
  inOrder : InOrder device.bad
  bytes : (∀ extent ∈ extents, extent.Placed from_.startBytes) →
    List.Forall₂ (Truthful from_.source device.bad) (positions from_.startBytes extents) file

/-- The same part of the way through one more extent. -/
structure TruthfulPart (copied : List Extent) (extent : Extent) (done : Nat) (file : Bytes)
    (device : RetryingDevice) : Prop where
  inOrder : InOrder device.bad
  bytes : (∀ extent ∈ copied, extent.Placed from_.startBytes) → extent.Placed from_.startBytes →
    List.Forall₂ (Truthful from_.source device.bad)
      (positions from_.startBytes copied ++
        List.range' (from_.startBytes + extent.deviceOffset.toNat) done) file

variable {from_}

theorem TruthfulPart.chunk {copied : List Extent} {extent : Extent} {done : Nat} {file got : Bytes}
    {before after : RetryingDevice} (part : from_.TruthfulPart copied extent done file before)
    (more : done < extent.lengthBytes.toNat)
    (read : from_.device.readAt ((extent.deviceOffset.toNat + done) % 2 ^ 64)
      (min kExtractChunkBytes (extent.lengthBytes.toNat - done)) before = (.ok got, after))
    (_ : got.length = min kExtractChunkBytes (extent.lengthBytes.toNat - done)) :
    from_.TruthfulPart copied extent (done + got.length) (file ++ got) after := by
  obtain ⟨remembers, faithful⟩ := from_.device_faithful part.inOrder
    ((extent.deviceOffset.toNat + done) % 2 ^ 64)
    (min kExtractChunkBytes (extent.lengthBytes.toNat - done))
  rw [read] at remembers faithful
  refine ⟨remembers.inOrder, fun placed placedHere => ?_⟩
  have fits := placedHere (Nat.zero_lt_of_lt more)
  have here : (extent.deviceOffset.toNat + done) % 2 ^ 64 = extent.deviceOffset.toNat + done :=
    Nat.mod_eq_of_lt (by omega)
  rw [here] at faithful
  have own := truthful_of_faithful (faithful got rfl (by omega))
  rw [← List.range'_append_1, ← List.append_assoc]
  apply List.rel_append (Truthful.mono remembers.told (part.bytes placed placedHere))
  rw [Nat.add_assoc]
  exact own

theorem TruthfulCopy.extent {copied : List Extent} {extent : Extent} {out : Output}
    {device : RetryingDevice} {total : Nat} (copy : from_.TruthfulCopy copied out.file device)
    (ended : (advanceExtent from_.device extent out device).done = .ok total) :
    from_.TruthfulCopy (copied ++ [extent]) (advanceExtent from_.device extent out device).out.file
      (advanceExtent from_.device extent out device).device := by
  have start : from_.TruthfulPart copied extent 0 out.file device :=
    ⟨copy.inOrder, fun placed _ => by simpa using copy.bytes placed⟩
  obtain ⟨rfl, part⟩ := advanceExtent_invariant from_.device extent
    (from_.TruthfulPart copied extent) TruthfulPart.chunk start ended
  refine ⟨part.inOrder, fun placed => ?_⟩
  rw [positions_append, positions_singleton]
  exact part.bytes (fun earlier member => placed earlier (List.mem_append_left _ member))
    (placed extent (List.mem_append_right _ (List.mem_singleton_self extent)))

theorem truthfulCopy_copyExtents {extents : List Extent} {device : RetryingDevice} {total : Nat}
    (inOrder : InOrder device.bad)
    (ended : (copyExtents from_.device extents Output.empty device).done = .ok total) :
    from_.TruthfulCopy extents (copyExtents from_.device extents Output.empty device).out.file
        (copyExtents from_.device extents Output.empty device).device ∧
      total = totalBytes extents % 2 ^ 64 :=
  copyExtents_invariant from_.device from_.TruthfulCopy TruthfulCopy.extent extents
    ⟨inOrder, fun _ => .nil⟩ ended

end DeliverySource

namespace Damage

/-- A byte an extent names that the map tells of was invented. -/
theorem invented_of_told {extents : List Extent} {damage : List BadRange} {startBytes byte : Nat}
    (placed : ∀ extent ∈ extents, extent.Placed startBytes) (inOrder : InOrder damage)
    (named : ∃ extent ∈ extents, extent.Names startBytes byte) (told : Told damage byte) :
    ∃ range ∈ inventedIn extents damage startBytes, range.Holds byte := by
  obtain ⟨extent, member, names⟩ := named
  obtain ⟨bad, mem, -, held⟩ := told
  have meet := lt_of_le_of_lt (max_le names.1 held.1) (lt_min names.2 held.2)
  have shared := shared_of_bounds meet rfl rfl
  exact ⟨_, (mem_inventedIn_iff placed inOrder.small).mpr ⟨extent, member, bad, mem, shared⟩,
    (shared.bytes byte).mpr ⟨names, held⟩⟩

/-- A record marked is the record with what was invented in it. -/
theorem getElem?_marked {extraction : Extraction} {damage : List BadRange} {startBytes turn : Nat}
    {artifact : ArtifactRecord}
    (found : (marked extraction damage startBytes).artifacts[turn]? = some artifact) :
    ∃ original, extraction.artifacts[turn]? = some original ∧
      artifact.outcome = original.outcome ∧
        (original.invented = [] → artifact = markedWith damage startBytes original) := by
  unfold marked at found
  split at found
  case isTrue none_ =>
      refine ⟨artifact, found, rfl, fun untouched => ?_⟩
      rw [List.isEmpty_iff] at none_
      have nothing : inventedIn artifact.extents [] startBytes = [] := by
        simp [inventedIn, overlapsIn]
      rw [markedWith, none_, nothing, ← untouched]
  case isFalse =>
      rw [List.getElem?_map] at found
      obtain ⟨original, here, rfl⟩ := Option.map_eq_some_iff.mp found
      exact ⟨original, here, rfl, fun _ => rfl⟩

end Damage

namespace DeliverySource

open RecoverySink RetryingDevice

variable (from_ : DeliverySource)

/-- The stack after everything a run has read of it so far. -/
def scanned (history : List (Nat × Nat)) : RetryingDevice :=
  RetryingDevice.run from_.source.met from_.policy fresh history

theorem scanned_inOrder (history : List (Nat × Nat)) : InOrder (from_.scanned history).bad := by
  unfold scanned RetryingDevice.run
  generalize start : fresh = device
  replace start : InOrder device.bad := by rw [← start]; exact inOrder_nil
  induction history generalizing device with
  | nil => exact start
  | cons request history ih =>
      exact ih _ (readAt_faithful from_.source from_.policy start request.1 request.2).1.inOrder

variable (contained : OutputPath → Bool) (media : Nat → Medium) (winners : List Candidate)
  (destination : Destination) (device : RetryingDevice)

/-- The damage a run knows of once its winners are written. -/
def damage : List BadRange :=
  (extract contained from_.device media winners destination device).device.bad

/-- The winners written, and each record marked with what it was given instead of
its bytes. -/
def delivered : Extraction :=
  Damage.marked (extract contained from_.device media winners destination device).result
    (from_.damage contained media winners destination device) from_.startBytes

/-- The file is the extents of the record in order, byte for byte the source's but
for the ranges reported, which are what the extents have in common with the map. -/
structure FaithfulFile (damage : List BadRange) (artifact : ArtifactRecord) (file : Bytes) :
    Prop where
  content : List.Forall₂
    (fun byte value => from_.source.bytes[byte]? = some value ∨
      ∃ range ∈ artifact.invented, range.Holds byte)
    (positions from_.startBytes artifact.extents) file
  counted : artifact.bytes = totalBytes artifact.extents
  digest : artifact.contentHash = Sha256.toHex (Sha256.sha256 file)
  invented : ∀ range, range ∈ artifact.invented ↔
    ∃ extent ∈ artifact.extents, ∃ bad ∈ damage, Damage.Shared from_.startBytes extent bad range

/-- The record has the extents of its winner, and the file that the turn left at the
path of the name in it is faithful. -/
def FaithfulTurn (turn : Nat) (winner : Candidate) (artifact : ArtifactRecord) : Prop :=
  artifact.extents = winner.extents ∧
    ∃ target file, sanitizeOutputPath contained artifact.writtenName = .ok target ∧
      (sinkAt contained from_.device media winners destination device (turn + 1)).destination.files
          target = some file ∧
        from_.FaithfulFile (from_.damage contained media winners destination device) artifact file

/-- Some extent cannot be read in full when its turn comes. -/
def CutShort (turn : Nat) (winner : Candidate) : Prop :=
  ∀ after, ¬ ReadEach from_.device
    (sinkAt contained from_.device media winners destination device turn).device
      winner.extents after

section Turns

variable {from_ contained media winners destination device}
variable {turn : Nat} {item : Ordered} {artifact : ArtifactRecord}

/-- The damage told after an attempted turn is on the map at the end. -/
theorem remembers_damage (inOrder : InOrder device.bad)
    (found : (extract contained from_.device media winners destination device).artifacts[turn]? =
      some artifact)
    (attempted : artifact.outcome ≠ .kNotAttempted) :
    InOrder (sinkAt contained from_.device media winners destination device turn).device.bad ∧
      Remembers (sinkAt contained from_.device media winners destination device (turn + 1)).device
        (extract contained from_.device media winners destination device).device := by
  obtain ⟨turns, ends, within⟩ :=
    extract_device contained from_.device media winners destination device
  have before (last : Nat) : Remembers device
      (sinkAt contained from_.device media winners destination device last).device :=
    sinkAt_kept (from_.keeps_remembers device) (Nat.zero_le last) (.refl inOrder)
  refine ⟨(before turn).inOrder, ?_⟩
  rw [ends]
  exact sinkAt_kept (from_.keeps_remembers _) (within turn artifact found attempted)
    (.refl (before (turn + 1)).inOrder)

/-- What a marked record of a written file says, and what its turn left. -/
theorem delivered_written (inOrder : InOrder device.bad)
    (here : (orderedForWriting winners)[turn]? = some item) (some_ : item.winner.extents ≠ [])
    (found : (from_.delivered contained media winners destination device).artifacts[turn]? =
      some artifact)
    (outcome : artifact.outcome = .kWritten) :
    ∃ target file,
      sanitizeOutputPath contained artifact.writtenName = .ok target ∧
        (sinkAt contained from_.device media winners destination device
            (turn + 1)).destination.files target = some file ∧
          artifact.extents = item.winner.extents ∧
            artifact.bytes = totalBytes item.winner.extents % 2 ^ 64 ∧
              artifact.contentHash = Sha256.toHex (Sha256.sha256 file) ∧
                artifact.invented = Damage.inventedIn item.winner.extents
                    (from_.damage contained media winners destination device)
                    from_.startBytes ∧
                  from_.TruthfulCopy item.winner.extents file
                    (extract contained from_.device media winners destination device).device := by
  obtain ⟨original, there, same, marked⟩ := Damage.getElem?_marked found
  rw [same] at outcome
  obtain ⟨file, met, rfl, safe, copied, held, digest, left⟩ :=
    extract_copied here there outcome rfl rfl
  obtain ⟨ordered, remembers⟩ := remembers_damage inOrder there (by rw [outcome]; decide)
  obtain rfl := marked rfl
  obtain ⟨done, -, out, after⟩ := copyInto_extents from_.device some_ copied
  obtain ⟨copy, total⟩ := truthfulCopy_copyExtents ordered done
  rw [left, after] at remembers
  rw [out] at held digest
  refine ⟨file.target, _, safe, held, rfl, total, congrArg Sha256.toHex digest, rfl, ?_⟩
  exact ⟨remembers.inOrder, fun placed => Truthful.mono remembers.told (copy.bytes placed)⟩

/-- A winner that was cut short is recorded as failed. -/
theorem delivered_cutShort (here : (orderedForWriting winners)[turn]? = some item)
    (some_ : item.winner.extents ≠ [])
    (found : (from_.delivered contained media winners destination device).artifacts[turn]? =
      some artifact)
    (attempted : artifact.outcome ≠ .kNotAttempted)
    (short : from_.CutShort contained media winners destination device turn item.winner) :
    artifact.outcome = .kFailed := by
  obtain ⟨original, there, same, -⟩ := Damage.getElem?_marked found
  rw [same] at attempted ⊢
  rw [result, extract, writeEach_artifacts] at there
  rw [recordsOf_attempted here there attempted]
  cases wrote : (write contained from_.device (media turn) item (afterTurns contained from_.device
      media (orderedForWriting winners) (initial destination device) turn)).1 with
  | error failure => rfl
  | ok file =>
      obtain ⟨met, copied, -, -, -⟩ := write_copied wrote
      obtain ⟨done, -, -, -⟩ := copyInto_extents from_.device some_ copied
      exact absurd (readEach_of_copied done) (short _)

end Turns

section Places

variable {from_} {damage : List BadRange} {artifact : ArtifactRecord} {file : Bytes}

/-- A truthful copy that fits 64 bits and has a place is faithful. -/
theorem faithfulFile_of_placed (small : totalBytes artifact.extents < 2 ^ 64)
    (placed : ∀ extent ∈ artifact.extents, extent.Placed from_.startBytes)
    (counted : artifact.bytes = totalBytes artifact.extents % 2 ^ 64)
    (digest : artifact.contentHash = Sha256.toHex (Sha256.sha256 file))
    (invented : artifact.invented =
      Damage.inventedIn artifact.extents damage from_.startBytes)
    (inOrder : InOrder damage)
    (truthful : List.Forall₂ (Truthful from_.source damage)
      (positions from_.startBytes artifact.extents) file) :
    from_.FaithfulFile damage artifact file := by
  constructor
  case content =>
      have named := (List.forall₂_and_left _ _).mpr ⟨fun byte => mem_positions.mp, truthful⟩
      rw [invented]
      exact named.imp fun byte value own =>
        own.2.imp_right (Damage.invented_of_told placed inOrder own.1)
  case counted => exact counted.trans (Nat.mod_eq_of_lt small)
  case digest => exact digest
  case invented =>
      intro range
      rw [invented]
      exact Damage.mem_inventedIn_iff placed inOrder.small

/-- No byte at the last 64-bit offset is the source's, and no range reported reaches
it, so that a faithful file needs none. -/
theorem FaithfulFile.placed (faithful : from_.FaithfulFile damage artifact file)
    (invented : artifact.invented =
      Damage.inventedIn artifact.extents damage from_.startBytes)
    (inOrder : InOrder damage) :
    ∀ extent ∈ artifact.extents, extent.Placed from_.startBytes := by
  intro extent member some_
  by_contra beyond
  have last : from_.startBytes + extent.deviceOffset.toNat + extent.lengthBytes.toNat - 1 ∈
      positions from_.startBytes artifact.extents :=
    mem_positions.mpr ⟨extent, member, by unfold Extent.Names; omega⟩
  obtain ⟨⟨place, below⟩, there⟩ := List.mem_iff_get.mp last
  have below_ := faithful.content.length_eq ▸ below
  rcases there ▸ faithful.content.get below below_ with own | ⟨range, reported, held⟩
  · have inside := (List.getElem?_eq_some_iff.mp own).1
    have addressable := from_.source.addressable
    omega
  · rw [invented] at reported
    have ends := Damage.end_le_of_mem_inventedIn inOrder.small reported
    have reaches := held.2
    unfold kMax at ends
    omega

end Places

/-- A file written out of extents is faithful exactly when the extents end below the
last 64-bit offset and their lengths add up to a 64-bit number; and whatever
cannot be read in full is recorded as failed. -/
theorem delivered_faithful_iff (history : List (Nat × Nat)) {turn : Nat} {item : Ordered}
    {artifact : ArtifactRecord} (here : (orderedForWriting winners)[turn]? = some item)
    (some_ : item.winner.extents ≠ [])
    (found : (from_.delivered contained media winners destination
      (from_.scanned history)).artifacts[turn]? = some artifact) :
    (artifact.outcome = .kWritten →
      (from_.FaithfulTurn contained media winners destination (from_.scanned history) turn
          item.winner artifact ↔
        totalBytes item.winner.extents < 2 ^ 64 ∧
          ∀ extent ∈ item.winner.extents, extent.Placed from_.startBytes)) ∧
      (artifact.outcome ≠ .kNotAttempted →
        from_.CutShort contained media winners destination (from_.scanned history) turn
            item.winner →
          artifact.outcome = .kFailed) := by
  constructor
  · intro outcome
    obtain ⟨target, file, safe, held, extents, counted, digest, invented, copy⟩ :=
      delivered_written (from_.scanned_inOrder history) here some_ found outcome
    rw [← extents] at counted invented copy ⊢
    constructor
    · rintro ⟨-, target_, file_, -, -, faithful⟩
      refine ⟨?_, faithful.placed invented copy.inOrder⟩
      rw [← faithful.counted, counted]
      exact Nat.mod_lt _ (Nat.two_pow_pos 64)
    · rintro ⟨small, placed⟩
      exact ⟨extents, target, file, safe, held, faithfulFile_of_placed small placed counted digest
        invented copy.inOrder (copy.bytes placed)⟩
  · exact fun attempted short => delivered_cutShort here some_ found attempted short

section Disks

/-- A disk of two sectors of which the second cannot be read. -/
def spoiled : DeliverySource where
  source :=
    { bytes := List.replicate 1024 7
      addressable := by rw [List.length_replicate]; decide
      sectorSize := 512
      refuses := fun _ offset bufferSize =>
        if offset + bufferSize > 512 then some { code := .kIoFailure, offset := offset } else none }
  policy := ⟨3⟩
  window := none

/-- A file that reaches into the second sector. -/
def across : Candidate := { residentFile (ascii "a") [] with extents := [⟨0, 512⟩, ⟨512, 256⟩] }

/-- The file on the spoiled disk is written, and faithful: half of its second extent
is not, and is reported. -/
theorem spoiled_faithful : ∃ artifact,
    (spoiled.delivered (fun _ => true) (fun _ => accepting) [across] Destination.empty
        (spoiled.scanned [])).artifacts[0]? = some artifact ∧
      artifact.invented = [⟨512, 256⟩] ∧
        spoiled.FaithfulTurn (fun _ => true) (fun _ => accepting) [across] Destination.empty
          (spoiled.scanned []) 0 across artifact := by
  have records : (spoiled.delivered (fun _ => true) (fun _ => accepting) [across]
      Destination.empty (spoiled.scanned [])).artifacts.map
        (fun artifact => (artifact.outcome, artifact.invented)) =
          [(.kWritten, [⟨512, 256⟩])] := by decide +kernel
  obtain ⟨artifact, artifacts, same⟩ := List.map_eq_singleton_iff.mp records
  obtain ⟨outcome, invented⟩ := Prod.mk.inj same
  have found : (spoiled.delivered (fun _ => true) (fun _ => accepting) [across]
      Destination.empty (spoiled.scanned [])).artifacts[0]? = some artifact := by
    rw [artifacts]
    rfl
  have here : (orderedForWriting [across])[0]? = some ⟨across, 0⟩ := rfl
  have faithful := (delivered_faithful_iff spoiled (fun _ => true) (fun _ => accepting) [across]
    Destination.empty [] here (List.cons_ne_nil _ _) found).1 outcome
  exact ⟨artifact, found, invented, faithful.mpr (by decide +kernel)⟩

/-- A disk of one sector that answers every read of it, and refuses the reads that
reach past the last 64-bit offset. -/
def oneSector : DeliverySource where
  source :=
    { bytes := List.replicate 512 7
      addressable := by rw [List.length_replicate]; decide
      sectorSize := 512
      refuses := fun _ offset bufferSize =>
        if bufferSize > kMax - offset then some { code := .kOverflow, offset := offset } else none }
  policy := ⟨3⟩
  window := none

/-- A file said to lie around the last 64-bit offset. -/
def wrapped : Candidate := { residentFile (ascii "a") [] with extents := [⟨2 ^ 64 - 256, 512⟩] }

/-- It is written as zeros, of which one half is reported. -/
theorem oneSector_not_faithful : ∃ artifact,
    (oneSector.delivered (fun _ => true) (fun _ => accepting) [wrapped] Destination.empty
        (oneSector.scanned [])).artifacts[0]? = some artifact ∧
      artifact.outcome = .kWritten ∧ artifact.bytes = 512 ∧
        artifact.invented = [⟨2 ^ 64 - 256, 255⟩] ∧
          ¬ oneSector.FaithfulTurn (fun _ => true) (fun _ => accepting) [wrapped]
            Destination.empty (oneSector.scanned []) 0 wrapped artifact := by
  have records : (oneSector.delivered (fun _ => true) (fun _ => accepting) [wrapped]
      Destination.empty (oneSector.scanned [])).artifacts.map
        (fun artifact => (artifact.outcome, artifact.bytes, artifact.invented)) =
          [(.kWritten, 512, [⟨2 ^ 64 - 256, 255⟩])] := by decide +kernel
  obtain ⟨artifact, artifacts, same⟩ := List.map_eq_singleton_iff.mp records
  obtain ⟨outcome, rest⟩ := Prod.mk.inj same
  obtain ⟨bytes, invented⟩ := Prod.mk.inj rest
  have found : (oneSector.delivered (fun _ => true) (fun _ => accepting) [wrapped]
      Destination.empty (oneSector.scanned [])).artifacts[0]? = some artifact := by
    rw [artifacts]
    rfl
  refine ⟨artifact, found, outcome, bytes, invented, ?_⟩
  rintro ⟨extents, target, file, -, -, faithful⟩
  have here : (orderedForWriting [wrapped])[0]? = some ⟨wrapped, 0⟩ := rfl
  obtain ⟨_, _, _, _, _, _, _, marked, copy⟩ := delivered_written (oneSector.scanned_inOrder [])
    here (List.cons_ne_nil _ _) found outcome
  rw [← show artifact.extents = wrapped.extents from extents] at marked
  have placed := faithful.placed marked copy.inOrder ⟨2 ^ 64 - 256, 512⟩
    (by rw [extents]; exact List.mem_singleton_self _)
  exact absurd placed (by decide +kernel)

end Disks

end DeliverySource

end Revenant
