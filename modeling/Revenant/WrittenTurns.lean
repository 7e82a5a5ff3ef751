import Revenant.ExtentSpan
import Revenant.PreviewAgreement
import Revenant.SinkAccounting

/-!
# What the turn of a written file leaves

The record of a file that was written belongs to the turn of its winner, and at the
end of that turn the file holds as many bytes as the winner's content, which is what
its record counts.
-/

namespace Revenant

open ExtractFile ExtentSpan

/-- How many bytes a winner's content has: extents come before resident content. -/
def Candidate.contentBytes (winner : Candidate) : Nat :=
  if winner.extents = [] then winner.residentContent.length else totalBytes winner.extents

section Copies

variable {State : Type} {reader : Reader State}

/-- An extent copied adds as many bytes as it has. -/
theorem extent_length {earlier : List Extent} {extent : Extent} {out : Output} {device : State}
    {total : Nat} (length : out.file.length = totalBytes earlier)
    (ended : (advanceExtent reader extent out device).done = .ok total) :
    (advanceExtent reader extent out device).out.file.length = totalBytes (earlier ++ [extent]) := by
  have start : out.file.length = totalBytes earlier + 0 := length
  obtain ⟨whole, grown⟩ := advanceExtent_invariant reader extent
    (fun done file _ => file.length = totalBytes earlier + done)
    (fun before _ _ _ => by rw [List.length_append, before, Nat.add_assoc]) start ended
  rw [grown, whole, totalBytes_append]
  simp [totalBytes]

/-- A copy that succeeds has put the whole content down. -/
theorem copyInto_length {medium : Medium} {winner : Candidate} {device : State} {written : Nat}
    (ended : (copyInto reader medium winner Output.empty device).done = .ok written) :
    (copyInto reader medium winner Output.empty device).out.file.length = winner.contentBytes ∧
      (winner.contentBytes < 2 ^ 64 → written = winner.contentBytes) := by
  unfold Candidate.contentBytes
  by_cases resident : winner.extents = []
  · rw [copyInto_resident reader resident] at ended ⊢
    rw [if_pos resident]
    exact ⟨rfl, fun _ => (flushed_ok ended).2⟩
  · obtain ⟨copied, -, same, -⟩ := copyInto_extents reader resident ended
    rw [same, if_neg resident]
    obtain ⟨length, total⟩ := copyExtents_invariant reader
      (fun extents file _ => file.length = totalBytes extents) extent_length winner.extents rfl copied
    refine ⟨length, fun small => ?_⟩
    rw [total]
    exact Nat.mod_eq_of_lt small

end Copies

namespace RecoverySink

open OutputPath

variable {State : Type} {contained : OutputPath → Bool} {reader : Reader State}

/-- A file written holds what the copy of its winner put down, under the digest of
that, and leaves the device as the copy did. -/
theorem write_copied {medium : Medium} {item : Ordered} {sink : RecoverySink State}
    {file : WrittenFile} (wrote : (write contained reader medium item sink).1 = .ok file) :
    ∃ met : Medium,
      (copyInto reader met item.winner Output.empty sink.device).done = .ok file.bytes ∧
        (write contained reader medium item sink).2.destination.files file.target =
            some (copyInto reader met item.winner Output.empty sink.device).out.file ∧
          file.content =
              Sha256.sha256 (copyInto reader met item.winner Output.empty sink.device).out.file ∧
            (write contained reader medium item sink).2.device =
              (copyInto reader met item.winner Output.empty sink.device).device := by
  obtain ⟨renamed, claimedSink⟩ := claimName_snd contained item sink
  rcases write_cases contained reader medium item sink with
    ⟨_, failed⟩ | ⟨claimed, target, _, _, wroteTo⟩
  · rw [failed] at wrote
    cases wrote
  · rw [wroteTo] at wrote ⊢
    unfold writeTo at wrote ⊢
    have same : (claimName contained item sink).2.device = sink.device := by rw [claimedSink]
    generalize (claimName contained item sink).2 = claimed at wrote same ⊢
    rw [← same]
    refine ⟨claimed.destination.mediumFor target medium, ?_⟩
    cases extracted : (extractTo reader (claimed.destination.mediumFor target medium)
        item.winner claimed.device).result with
    | error failure => simp [extracted, Except.map] at wrote
    | ok written =>
        obtain ⟨copied, left, after, digest⟩ := extractTo_ok reader extracted
        simp only [extracted, Except.map, Except.ok.injEq] at wrote
        subst wrote
        refine ⟨copied, ?_, digest, after⟩
        simp only [left, Option.elim]
        exact Destination.files_hold_self _ _ _

theorem recordOf_written {winner : Candidate} {written : Result WrittenFile}
    {sink : RecoverySink State} (outcome : (recordOf winner written sink).outcome = .kWritten) :
    ∃ file, written = .ok file ∧ isDuplicate winner file sink = false ∧
      recordOf winner written sink = writtenRecord winner file := by
  unfold recordOf at outcome ⊢
  cases written with
  | error failure => cases outcome
  | ok file =>
      by_cases duplicate : isDuplicate winner file sink = true
      · simp only [duplicate, if_true] at outcome
        cases outcome
      · exact ⟨file, rfl, by simpa using duplicate, by simp only [duplicate]; rfl⟩

/-- The record of a winner that was attempted is the one its own turn left. -/
theorem recordsOf_attempted {media : Nat → Medium} {items : List Ordered}
    {sink : RecoverySink State} {turn : Nat} {item : Ordered} {artifact : ArtifactRecord}
    (here : items[turn]? = some item)
    (found : (recordsOf contained reader media items sink)[turn]? = some artifact)
    (attempted : artifact.outcome ≠ .kNotAttempted) :
    artifact = recordOf item.winner
      (write contained reader (media turn) item
        (afterTurns contained reader media items sink turn)).1
      (afterTurns contained reader media items sink turn) := by
  induction items generalizing sink media turn with
  | nil => cases here
  | cons first items ih =>
      rw [recordsOf] at found
      cases turn with
      | zero =>
          cases here
          cases found
          rfl
      | succ turn =>
          rw [List.getElem?_cons_succ] at here found
          split at found
          · rw [List.getElem?_map, here] at found
            cases found
            exact absurd rfl attempted
          · rw [afterTurns_cons]
            exact ih here found

theorem recordsOf_written {media : Nat → Medium} {items : List Ordered}
    {sink : RecoverySink State} {turn : Nat} {item : Ordered} {artifact : ArtifactRecord}
    (here : items[turn]? = some item)
    (found : (recordsOf contained reader media items sink)[turn]? = some artifact)
    (outcome : artifact.outcome = .kWritten) :
    ∃ file, (write contained reader (media turn) item
          (afterTurns contained reader media items sink turn)).1 = .ok file ∧
      isDuplicate item.winner file (afterTurns contained reader media items sink turn) = false ∧
        artifact = writtenRecord item.winner file := by
  obtain rfl := recordsOf_attempted here found (by rw [outcome]; decide)
  exact recordOf_written outcome

/-- The sink of an extraction before a turn. -/
def sinkAt (contained : OutputPath → Bool) (reader : Reader State) (media : Nat → Medium)
    (winners : List Candidate) (destination : Destination) (device : State) (turn : Nat) :
    RecoverySink State :=
  afterTurns contained reader media (orderedForWriting winners) (initial destination device) turn

/-- A run ends with the device as its last turn left it, and what was attempted was
attempted by then. -/
theorem extract_device (contained : OutputPath → Bool) (reader : Reader State)
    (media : Nat → Medium) (winners : List Candidate) (destination : Destination)
    (device : State) :
    ∃ turns, (extract contained reader media winners destination device).device =
        (sinkAt contained reader media winners destination device turns).device ∧
      ∀ (turn : Nat) (artifact : ArtifactRecord),
        (extract contained reader media winners destination device).artifacts[turn]? =
            some artifact →
          artifact.outcome ≠ .kNotAttempted → turn < turns := by
  obtain ⟨turns, inside, run, -⟩ := writeEach_eq contained reader media
    (orderedForWriting winners) (initial destination device)
  have tally : Tally contained reader media (orderedForWriting winners)
      (initial destination device) turns _ := tally_afterTurns _ destination device inside
  refine ⟨turns, by rw [extract, run]; rfl, fun turn artifact found attempted => ?_⟩
  by_contra beyond
  rw [extract, run, recordNotAttempted,
    List.getElem?_append_right (tally.length.trans_le (not_lt.mp beyond)),
    List.getElem?_map] at found
  obtain ⟨item, -, rfl⟩ := Option.map_eq_some_iff.mp found
  exact attempted rfl

/-- What the turn of a written file leaves: at the path of its name, what the copy of
its winner put down, under the digest of that. -/
theorem extract_copied {media : Nat → Medium} {winners : List Candidate}
    {destination : Destination} {device : State} {turn : Nat} {item : Ordered}
    {artifact : ArtifactRecord} (here : (orderedForWriting winners)[turn]? = some item)
    (found : (extract contained reader media winners destination device).artifacts[turn]? =
      some artifact)
    (outcome : artifact.outcome = .kWritten) {before after : RecoverySink State}
    (starts : sinkAt contained reader media winners destination device turn = before)
    (ends : sinkAt contained reader media winners destination device (turn + 1) = after) :
    ∃ file met, artifact = writtenRecord item.winner file ∧
      sanitizeOutputPath contained file.name = .ok file.target ∧
        (copyInto reader met item.winner Output.empty before.device).done = .ok file.bytes ∧
          after.destination.files file.target =
              some (copyInto reader met item.winner Output.empty before.device).out.file ∧
            file.content = Sha256.sha256
                (copyInto reader met item.winner Output.empty before.device).out.file ∧
              after.device =
                (copyInto reader met item.winner Output.empty before.device).device := by
  rw [extract, writeEach_artifacts] at found
  obtain ⟨file, wrote, fresh, rfl⟩ := recordsOf_written here found outcome
  rw [sinkAt] at starts
  rw [starts] at wrote fresh
  obtain ⟨met, copied, held, digest, left⟩ := write_copied wrote
  have safe := (write_ok contained reader wrote).2.1
  have kept := writeOne_ok contained reader wrote
  have fresh_ : isDuplicate item.winner file
      (write contained reader (media turn) item before).2 = false := by
    simpa [isDuplicate] using fresh
  have next : after =
      (write contained reader (media turn) item before).2.keep item.winner file := by
    rw [← ends, sinkAt, afterTurns, here, starts]
    dsimp only
    rw [kept, fresh_]
    rfl
  rw [next]
  exact ⟨file, met, rfl, safe, copied, held, digest, left⟩

/-- At the end of its turn the file a record tells of is there, with the winner's
content, and the record counts its bytes. -/
theorem extract_written {media : Nat → Medium} {winners : List Candidate}
    {destination : Destination} {device : State} {turn : Nat} {item : Ordered}
    {artifact : ArtifactRecord} (here : (orderedForWriting winners)[turn]? = some item)
    (found : (extract contained reader media winners destination device).artifacts[turn]? =
      some artifact)
    (outcome : artifact.outcome = .kWritten) :
    ∃ target content,
      (afterTurns contained reader media (orderedForWriting winners) (initial destination device)
          (turn + 1)).destination.files target = some content ∧
        content.length = item.winner.contentBytes ∧
          (item.winner.contentBytes < 2 ^ 64 → artifact.bytes = item.winner.contentBytes) := by
  obtain ⟨file, met, rfl, -, copied, held, -, -⟩ := extract_copied here found outcome rfl rfl
  obtain ⟨length, counted⟩ := copyInto_length copied
  exact ⟨file.target, _, held, length, counted⟩

end RecoverySink
end Revenant
