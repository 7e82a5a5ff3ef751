import Revenant.RecoverySink

/-!
# What the records of a run add up to

A run is followed turn by turn.  After any number of turns there is one record a
turn, the counters count them, and every digest kept belongs to a record of a
written file, which is what a later duplicate is measured against.
-/

namespace Revenant
namespace RecoverySink

open OutputPath ExtractFile

variable {State : Type} (contained : OutputPath → Bool) (reader : Reader State)
  (media : Nat → Medium)

section Turns

/-- The sink after a number of turns, should none of them end the run. -/
def afterTurns (items : List Ordered) (sink : RecoverySink State) : Nat → RecoverySink State
  | 0 => sink
  | turn + 1 =>
      match items[turn]? with
      | none => afterTurns items sink turn
      | some item => writeOne contained reader (media turn) item (afterTurns items sink turn)

theorem afterTurns_cons (item : Ordered) (items : List Ordered) (sink : RecoverySink State)
    (turns : Nat) :
    afterTurns contained reader media (item :: items) sink (turns + 1) =
      afterTurns contained reader (fun turn => media (turn + 1)) items
        (writeOne contained reader (media 0) item sink) turns := by
  induction turns with
  | zero => rfl
  | succ turns ih => rw [afterTurns, ih, List.getElem?_cons_succ, afterTurns]

/-- A run is some of its turns, then the rest unattempted; it only leaves a rest
when a turn ended it. -/
theorem writeEach_eq (items : List Ordered) (sink : RecoverySink State) :
    ∃ turns ≤ items.length,
      writeEach contained reader media items sink =
          (afterTurns contained reader media items sink turns).recordNotAttempted
            (items.drop turns) ∧
        (turns < items.length →
          (afterTurns contained reader media items sink turns).stoppedBy.isSome) := by
  induction items generalizing sink media with
  | nil => exact ⟨0, Nat.le_refl 0, by simp [writeEach, afterTurns, recordNotAttempted], by simp⟩
  | cons item items ih =>
      rw [writeEach]
      by_cases stopped : (writeOne contained reader (media 0) item sink).stoppedBy.isSome = true
      · refine ⟨1, by simp, ?_, fun _ => ?_⟩
        · simp [stopped, afterTurns]
        · simpa [afterTurns] using stopped
      · obtain ⟨turns, inside, run, ends⟩ := ih (fun turn => media (turn + 1))
          (writeOne contained reader (media 0) item sink)
        refine ⟨turns + 1, by simpa using inside, ?_, fun more => ?_⟩
        · simp only [stopped, Bool.false_eq_true, if_false, List.drop_succ_cons, afterTurns_cons]
          exact run
        · rw [afterTurns_cons]
          exact ends (by simpa using more)

end Turns

section Rows

/-- The record is the winner's. -/
structure Describes (artifact : ArtifactRecord) (winner : Candidate) : Prop where
  originalName : artifact.originalName = winner.name
  extents : artifact.extents = winner.extents
  timestamps : artifact.timestamps = winner.timestamps
  confidence : artifact.confidence = winner.confidence
  source : artifact.source = winner.source

theorem describes_recordFor (winner : Candidate) (outcome : ArtifactOutcome) :
    Describes (recordFor winner outcome) winner :=
  ⟨rfl, rfl, rfl, rfl, rfl⟩

/-- What the record of one turn says.  The name of a written file follows from
the winners alone; a duplicate has the digest of a file written before it. -/
structure Row (items : List Ordered) (start : RecoverySink State) (artifacts : List ArtifactRecord)
    (turn : Nat) (item : Ordered) (artifact : ArtifactRecord) : Prop where
  describes : Describes artifact item.winner
  named : artifact.outcome = .kWritten →
    claimedName contained ((items.take turn).foldl (claims contained) []) item =
      some artifact.writtenName
  duplicate : artifact.outcome = .kDeduplicated → item.winner.source = .kCarve ∧
    ∃ file, (write contained reader (media turn) item
          (afterTurns contained reader media items start turn)).1 = .ok file ∧
      ∃ earlier original, earlier < turn ∧ artifacts[earlier]? = some original ∧
        original.outcome = .kWritten ∧ original.contentHash = Sha256.toHex file.content

/-- The counters count the records. -/
structure Counted (stats : ExtractionStats) (artifacts : List ArtifactRecord) : Prop where
  filesWritten : stats.filesWritten = artifacts.countP fun artifact => artifact.outcome = .kWritten
  failed : stats.failed = artifacts.countP fun artifact => artifact.outcome = .kFailed
  deduplicated : stats.deduplicated =
    artifacts.countP fun artifact => artifact.outcome = .kDeduplicated
  bytesWritten : stats.bytesWritten =
    (artifacts.map fun artifact => artifact.bytes).sum % 2 ^ 64

/-- What holds after a number of turns. -/
structure Tally (items : List Ordered) (start : RecoverySink State) (turns : Nat)
    (sink : RecoverySink State) : Prop where
  length : sink.artifacts.length = turns
  rows : ∀ turn artifact, sink.artifacts[turn]? = some artifact →
    ∃ item, items[turn]? = some item ∧
      Row contained reader media items start sink.artifacts turn item artifact
  attempted : ∀ artifact ∈ sink.artifacts, artifact.outcome ≠ .kNotAttempted
  counted : Counted sink.stats sink.artifacts
  used : sink.used = (items.take turns).foldl (claims contained) []
  digests : ∀ digest ∈ sink.written, ∃ original ∈ sink.artifacts,
    original.outcome = .kWritten ∧ original.contentHash = Sha256.toHex digest

variable {contained reader media}

theorem Row.extend {items : List Ordered} {start : RecoverySink State}
    {artifacts : List ArtifactRecord} {turn : Nat} {item : Ordered} {artifact : ArtifactRecord}
    (row : Row contained reader media items start artifacts turn item artifact)
    (more : List ArtifactRecord) :
    Row contained reader media items start (artifacts ++ more) turn item artifact := by
  refine ⟨row.describes, row.named, fun outcome => ?_⟩
  obtain ⟨carved, file, wrote, earlier, original, before, found, written, hash⟩ :=
    row.duplicate outcome
  refine ⟨carved, file, wrote, earlier, original, before, ?_, written, hash⟩
  rw [List.getElem?_append_left (List.getElem?_eq_some_iff.mp found).1, found]

/-- Rows and digests after one more record. -/
theorem Tally.append {items : List Ordered} {start : RecoverySink State} {turns : Nat}
    {sink after : RecoverySink State} {item : Ordered} {artifact : ArtifactRecord}
    (tally : Tally contained reader media items start turns sink) (here : items[turns]? = some item)
    (records : after.artifacts = sink.artifacts ++ [artifact])
    (row : Row contained reader media items start sink.artifacts turns item artifact)
    (attempted : artifact.outcome ≠ .kNotAttempted) (counted : Counted after.stats after.artifacts)
    (used : after.used = claims contained sink.used item)
    (digests : ∀ digest ∈ after.written, digest ∈ sink.written ∨
      artifact.outcome = .kWritten ∧ artifact.contentHash = Sha256.toHex digest) :
    Tally contained reader media items start (turns + 1) after := by
  refine ⟨by rw [records, List.length_append, tally.length]; rfl, ?_, ?_, counted, ?_, ?_⟩
  · intro turn found at_
    rw [records] at at_ ⊢
    rcases Nat.lt_or_ge turn sink.artifacts.length with old | new
    · rw [List.getElem?_append_left old] at at_
      obtain ⟨earlier, inside, known⟩ := tally.rows turn found at_
      exact ⟨earlier, inside, known.extend [artifact]⟩
    · rw [List.getElem?_append_right new] at at_
      obtain rfl : turn = turns := by
        have inside := (List.getElem?_eq_some_iff.mp at_).1
        have length := tally.length
        rw [List.length_singleton] at inside
        omega
      rw [tally.length, Nat.sub_self, List.getElem?_cons_zero] at at_
      cases at_
      exact ⟨item, here, row.extend [artifact]⟩
  · intro found member
    rw [records, List.mem_append, List.mem_singleton] at member
    rcases member with member | rfl
    · exact tally.attempted found member
    · exact attempted
  · rw [used, tally.used, List.take_add_one, here, Option.toList_some, List.foldl_append,
      List.foldl_cons, List.foldl_nil]
  · intro digest member
    rw [records]
    rcases digests digest member with old | ⟨written, hash⟩
    · obtain ⟨original, found, known⟩ := tally.digests digest old
      exact ⟨original, List.mem_append_left _ found, known⟩
    · exact ⟨artifact, List.mem_append_right _ (List.mem_singleton_self artifact), written, hash⟩

/-- One more record, counted under its outcome. -/
theorem Counted.append {stats after : ExtractionStats} {artifacts : List ArtifactRecord}
    (counted : Counted stats artifacts) (artifact : ArtifactRecord)
    (filesWritten : after.filesWritten =
      stats.filesWritten + if artifact.outcome = .kWritten then 1 else 0)
    (failed : after.failed = stats.failed + if artifact.outcome = .kFailed then 1 else 0)
    (deduplicated : after.deduplicated =
      stats.deduplicated + if artifact.outcome = .kDeduplicated then 1 else 0)
    (bytesWritten : after.bytesWritten = (stats.bytesWritten + artifact.bytes) % 2 ^ 64) :
    Counted after (artifacts ++ [artifact]) := by
  refine ⟨?_, ?_, ?_, ?_⟩
  · rw [filesWritten, counted.filesWritten, List.countP_append, List.countP_singleton]
    simp
  · rw [failed, counted.failed, List.countP_append, List.countP_singleton]
    simp
  · rw [deduplicated, counted.deduplicated, List.countP_append, List.countP_singleton]
    simp
  · rw [bytesWritten, counted.bytesWritten, List.map_append, List.sum_append, List.map_singleton,
      List.sum_singleton, Nat.mod_add_mod]

/-- The records of failures and duplicates count no bytes. -/
theorem Counted.same_bytes {stats : ExtractionStats} {artifacts : List ArtifactRecord}
    (counted : Counted stats artifacts) : stats.bytesWritten = (stats.bytesWritten + 0) % 2 ^ 64 := by
  rw [Nat.add_zero, counted.bytesWritten, Nat.mod_mod]

section WriteOne

variable {items : List Ordered} {start sink : RecoverySink State} {turns : Nat} {item : Ordered}

theorem write_stats (contained : OutputPath → Bool) (reader : Reader State) (medium : Medium)
    (item : Ordered) (sink : RecoverySink State) :
    ∃ renamed, (write contained reader medium item sink).2.stats =
      { sink.stats with renamed := renamed } := by
  obtain ⟨renamed, rest⟩ := write_snd contained reader medium item sink
  exact ⟨renamed, by rw [rest]⟩

variable (states : afterTurns contained reader media items start turns = sink)
  (here : items[turns]? = some item)
  (tally : Tally contained reader media items start turns sink)

include here tally

theorem Tally.writeOne_failed {failure : Error}
    (wrote : (write contained reader (media turns) item sink).1 = .error failure) :
    Tally contained reader media items start (turns + 1)
      (writeOne contained reader (media turns) item sink) := by
  have usedAfter := writeOne_used contained reader (media turns) item sink
  obtain ⟨renamed, stats⟩ := write_stats contained reader (media turns) item sink
  have step := writeOne_error contained reader wrote
  have records : (writeOne contained reader (media turns) item sink).artifacts =
      sink.artifacts ++ [recordFor item.winner .kFailed] := by
    rw [step]
    split <;> simp [fail]
  have unwritten : ArtifactOutcome.kFailed ≠ .kWritten := by decide
  have new : ArtifactOutcome.kFailed ≠ .kDeduplicated := by decide
  have attempted : ArtifactOutcome.kFailed ≠ .kNotAttempted := by decide
  refine tally.append here records
    ⟨describes_recordFor _ _, (absurd · unwritten), (absurd · new)⟩ attempted ?_ usedAfter ?_
  · rw [records]
    have bytes : (writeOne contained reader (media turns) item sink).stats.bytesWritten =
        sink.stats.bytesWritten := by
      rw [step]
      split <;> simp [fail, stats]
    refine tally.counted.append _ ?_ ?_ ?_ (bytes.trans tally.counted.same_bytes) <;> rw [step] <;>
      split <;> simp [fail, stats, recordFor]
  · intro digest member
    left
    rw [step] at member
    split at member <;> simpa [fail] using member

include states

/-- A duplicate names the digest of a file that an earlier record shows written. -/
theorem Tally.writeOne_duplicate {file : WrittenFile}
    (wrote : (write contained reader (media turns) item sink).1 = .ok file)
    (duplicate :
      isDuplicate item.winner file (write contained reader (media turns) item sink).2 = true) :
    Tally contained reader media items start (turns + 1)
      (writeOne contained reader (media turns) item sink) := by
  have usedAfter := writeOne_used contained reader (media turns) item sink
  obtain ⟨renamed, stats⟩ := write_stats contained reader (media turns) item sink
  have step := writeOne_ok contained reader wrote
  obtain ⟨named, -⟩ := write_ok contained reader wrote
  rw [if_pos duplicate] at step
  obtain ⟨carved, known⟩ : item.winner.source = .kCarve ∧ file.content ∈ sink.written := by
    simpa [isDuplicate] using duplicate
  have records : (writeOne contained reader (media turns) item sink).artifacts =
      sink.artifacts ++ [recordFor item.winner .kDeduplicated] := by
    rw [step]
    simp [drop]
  obtain ⟨original, member, written, hash⟩ := tally.digests file.content known
  obtain ⟨earlier, inside, found⟩ := List.getElem_of_mem member
  have unwritten : ArtifactOutcome.kDeduplicated ≠ .kWritten := by decide
  have attempted : ArtifactOutcome.kDeduplicated ≠ .kNotAttempted := by decide
  refine tally.append here records ⟨describes_recordFor _ _, (absurd · unwritten), fun _ =>
    ⟨carved, file, ?_, earlier, original, tally.length ▸ inside, ?_, written, hash⟩⟩
    attempted ?_ usedAfter ?_
  · rw [states, wrote]
  · rw [List.getElem?_eq_getElem inside, found]
  · rw [records]
    have bytes : (writeOne contained reader (media turns) item sink).stats.bytesWritten =
        sink.stats.bytesWritten := by
      rw [step]
      simp [drop, stats]
    refine tally.counted.append _ ?_ ?_ ?_ (bytes.trans tally.counted.same_bytes) <;> rw [step] <;>
      simp [drop, stats, recordFor]
  · intro digest member
    left
    rw [step] at member
    simpa [drop] using member

omit states

theorem Tally.writeOne_kept {file : WrittenFile}
    (wrote : (write contained reader (media turns) item sink).1 = .ok file)
    (kept : ¬ isDuplicate item.winner file (write contained reader (media turns) item sink).2 =
      true) :
    Tally contained reader media items start (turns + 1)
      (writeOne contained reader (media turns) item sink) := by
  have usedAfter := writeOne_used contained reader (media turns) item sink
  obtain ⟨renamed, stats⟩ := write_stats contained reader (media turns) item sink
  have step := writeOne_ok contained reader wrote
  obtain ⟨named, -⟩ := write_ok contained reader wrote
  rw [if_neg kept] at step
  have records : (writeOne contained reader (media turns) item sink).artifacts =
      sink.artifacts ++ [writtenRecord item.winner file] := by
    rw [step]
    simp [keep]
  have new : ArtifactOutcome.kWritten ≠ .kDeduplicated := by decide
  have attempted : ArtifactOutcome.kWritten ≠ .kNotAttempted := by decide
  refine tally.append here records ⟨⟨rfl, rfl, rfl, rfl, rfl⟩, fun _ => ?_, (absurd · new)⟩
    attempted ?_ usedAfter ?_
  · rw [← tally.used, named]
    rfl
  · rw [records]
    refine tally.counted.append _ ?_ ?_ ?_ ?_ <;> rw [step] <;>
      simp [keep, stats, writtenRecord, recordFor]
  · intro digest member
    rw [step] at member
    rcases List.mem_cons.mp (by simpa [keep] using member) with rfl | old
    · exact .inr ⟨rfl, rfl⟩
    · exact .inl old

end WriteOne

theorem Tally.writeOne {items : List Ordered} {start : RecoverySink State} {turns : Nat}
    {item : Ordered} (here : items[turns]? = some item)
    (tally : Tally contained reader media items start turns
      (afterTurns contained reader media items start turns)) :
    Tally contained reader media items start (turns + 1)
      (writeOne contained reader (media turns) item
        (afterTurns contained reader media items start turns)) := by
  generalize states : afterTurns contained reader media items start turns = sink at tally ⊢
  cases wrote : (write contained reader (media turns) item sink).1 with
  | error failure => exact tally.writeOne_failed here wrote
  | ok file =>
      by_cases duplicate :
        isDuplicate item.winner file (write contained reader (media turns) item sink).2 = true
      · exact tally.writeOne_duplicate states here wrote duplicate
      · exact tally.writeOne_kept here wrote duplicate

/-- Records of winners not attempted count under nothing. -/
theorem Counted.recordNotAttempted {sink : RecoverySink State}
    (counted : Counted sink.stats sink.artifacts) (items : List Ordered) :
    Counted (sink.recordNotAttempted items).stats (sink.recordNotAttempted items).artifacts := by
  have none (outcome : ArtifactOutcome) (other : outcome ≠ .kNotAttempted) :
      (items.map fun item => recordFor item.winner .kNotAttempted).countP
        (fun artifact => artifact.outcome = outcome) = 0 := by
    simp [List.countP_eq_zero, recordFor, other.symm]
  have empty : ((items.map fun item => recordFor item.winner .kNotAttempted).map
      fun artifact => artifact.bytes).sum = 0 := by
    simp [recordFor, Function.comp_def]
  refine ⟨?_, ?_, ?_, ?_⟩ <;> simp only [RecoverySink.recordNotAttempted, List.countP_append]
  · rw [none .kWritten nofun, Nat.add_zero, counted.filesWritten]
  · rw [none .kFailed nofun, Nat.add_zero, counted.failed]
  · rw [none .kDeduplicated nofun, Nat.add_zero, counted.deduplicated]
  · rw [List.map_append, List.sum_append, empty, Nat.add_zero, counted.bytesWritten]

/-- The row of any record, attempted or not. -/
theorem Tally.row {items : List Ordered} {start sink : RecoverySink State} {turns : Nat}
    (tally : Tally contained reader media items start turns sink) {turn : Nat}
    {artifact : ArtifactRecord} {item : Ordered}
    (found : (sink.recordNotAttempted (items.drop turns)).artifacts[turn]? = some artifact)
    (here : items[turn]? = some item) :
    Row contained reader media items start
      (sink.recordNotAttempted (items.drop turns)).artifacts turn item artifact := by
  simp only [RecoverySink.recordNotAttempted] at found ⊢
  rcases Nat.lt_or_ge turn sink.artifacts.length with attempted | beyond
  · rw [List.getElem?_append_left attempted] at found
    obtain ⟨same, there, row⟩ := tally.rows turn artifact found
    obtain rfl : same = item := Option.some.inj (there.symm.trans here)
    exact row.extend _
  · rw [List.getElem?_append_right beyond, List.getElem?_map, List.getElem?_drop, tally.length,
      Nat.add_sub_of_le (tally.length ▸ beyond), here] at found
    cases found
    exact ⟨describes_recordFor _ _, nofun, nofun⟩

/-- The run lemma: the tally holds after every turn there is. -/
theorem tally_afterTurns (items : List Ordered) (destination : Destination) (device : State)
    {turns : Nat} (inside : turns ≤ items.length) :
    Tally contained reader media items (initial destination device) turns
      (afterTurns contained reader media items (initial destination device) turns) := by
  induction turns with
  | zero =>
      refine ⟨rfl, ?_, ?_, ⟨rfl, rfl, rfl, rfl⟩, ?_, ?_⟩ <;> simp [afterTurns, initial]
  | succ turns ih =>
      have here : items[turns]? = some items[turns] := List.getElem?_eq_getElem inside
      have next := (ih (Nat.le_of_succ_le inside)).writeOne here
      rw [afterTurns, here]
      exact next

end Rows

section Ordinals

/-- The items of the write order are winners, under their own places. -/
theorem getElem?_ordinal {winners : List Candidate} {item : Ordered}
    (member : item ∈ orderedForWriting winners) : winners[item.ordinal]? = some item.winner := by
  have place (source : CandidateSource) (member : item ∈ ofSource winners source) :
      winners[item.ordinal]? = some item.winner := by
    obtain ⟨numbered, found, rfl⟩ := List.mem_map.mp member
    exact (List.mem_zipIdx_iff_getElem?).mp (List.mem_of_mem_filter found)
  rcases List.mem_append.mp member with named | carved
  · exact place _ named
  · exact place _ carved

theorem map_fst_filter_zipIdx (winners : List Candidate) (source : CandidateSource) (first : Nat) :
    ((winners.zipIdx first).filter fun numbered => numbered.1.source = source).map Prod.fst =
      winners.filter fun winner => winner.source = source := by
  induction winners generalizing first with
  | nil => rfl
  | cons winner winners ih =>
      rw [List.zipIdx_cons, List.filter_cons, List.filter_cons]
      by_cases same : winner.source = source
      · simp only [same, decide_true, if_true, List.map_cons, ih]
      · simp only [same, decide_false, Bool.false_eq_true, if_false, ih]

theorem map_winner_ofSource (winners : List Candidate) (source : CandidateSource) :
    (ofSource winners source).map (fun item => item.winner) =
      winners.filter fun winner => winner.source = source := by
  rw [ofSource, List.map_map, ← map_fst_filter_zipIdx winners source 0]
  rfl

/-- The write order has every winner once exactly when each has a source that is
written. -/
theorem perm_orderedForWriting_iff (winners : List Candidate) :
    ((orderedForWriting winners).map fun item => item.winner).Perm winners ↔
      ∀ winner ∈ winners, winner.source = .kFilesystem ∨ winner.source = .kCarve := by
  rw [orderedForWriting, List.map_append, map_winner_ofSource, map_winner_ofSource]
  constructor
  · intro perm winner member
    rcases List.mem_append.mp (perm.mem_iff.mpr member) with named | carved
    · exact .inl (by simpa using List.of_mem_filter named)
    · exact .inr (by simpa using List.of_mem_filter carved)
  · intro known
    have carved : winners.filter (fun winner => winner.source = .kCarve) =
        winners.filter fun winner => !decide (winner.source = .kFilesystem) := by
      apply List.filter_congr
      intro winner member
      rcases known winner member with source | source <;> simp [source]
    rw [carved]
    exact List.filter_append_perm _ winners

end Ordinals

/-- The books of a run: one record a winner, counters that count them, a tail of
winners not attempted behind a stop, duplicates only of carved winners and only
of a file written before, and carved names numbered by place. -/
structure Accounted (winners : List Candidate) (destination : Destination) (device : State)
    (sink : RecoverySink State) : Prop where
  onceEach : ((orderedForWriting winners).map fun item => item.winner).Perm winners
  describes : List.Forall₂ (fun artifact (item : Ordered) => Describes artifact item.winner)
    sink.artifacts (orderedForWriting winners)
  counted : Counted sink.stats sink.artifacts
  unattempted : ∃ turns,
    (∀ artifact ∈ sink.artifacts.take turns, artifact.outcome ≠ .kNotAttempted) ∧
      (∀ artifact ∈ sink.artifacts.drop turns, artifact.outcome = .kNotAttempted) ∧
        (sink.artifacts.drop turns ≠ [] → sink.stoppedBy.isSome = true)
  duplicates : ∀ turn artifact item, sink.artifacts[turn]? = some artifact →
    (orderedForWriting winners)[turn]? = some item → artifact.outcome = .kDeduplicated →
      item.winner.source = .kCarve ∧
        ∃ file, (write contained reader (media turn) item
              (afterTurns contained reader media (orderedForWriting winners)
                (initial destination device) turn)).1 = .ok file ∧
          ∃ earlier original, earlier < turn ∧ sink.artifacts[earlier]? = some original ∧
            original.outcome = .kWritten ∧ original.contentHash = Sha256.toHex file.content
  ordinals : ∀ turn artifact item, sink.artifacts[turn]? = some artifact →
    (orderedForWriting winners)[turn]? = some item → artifact.outcome = .kWritten →
      item.winner.source = .kCarve →
        winners[item.ordinal]? = some item.winner ∧
          artifact.writtenName = disambiguate (carvedName item.winner item.ordinal)
            (((orderedForWriting winners).take turn).foldl (claims contained) []).contains

/-- A winner read back from a damaged index, with a source byte that names none. -/
def strayWinner : Candidate where
  name := ascii "a"
  extents := []
  residentContent := []
  timestamps := ⟨0, 0, 0⟩
  confidence := .kValid
  source := .unnamed 2 (by decide)

end RecoverySink
end Revenant
