import Revenant.RecoverySink

/-!
# Which winners may overwrite each other

Names are kept apart before they are cleaned, files after.  The files of a run
are all intact, whatever the device and the destination do, exactly when no
winner is given a name that is cleaned to the path of a name given before.
-/

namespace Revenant
namespace RecoverySink

open OutputPath ExtractFile

variable {State : Type} (contained : OutputPath → Bool) (reader : Reader State)

/-- No name in use is cleaned to the path of the name this winner is given. -/
def Free (used : List Bytes) (item : Ordered) : Prop :=
  ∀ claimed target, claimedName contained used item = some claimed →
    sanitizeOutputPath contained claimed = .ok target →
      ∀ name ∈ used, sanitizeOutputPath contained name ≠ .ok target

/-- Every winner in turn is free of the names given before it. -/
def Unaliased : (used : List Bytes) → List Ordered → Prop
  | _, [] => True
  | used, item :: items =>
      Free contained used item ∧ Unaliased (claims contained used item) items

/-- Artifacts recorded as written have paths of their own, and each file is there
with the bytes whose digest was recorded. -/
structure Intact (sink : RecoverySink State) : Prop where
  distinct : (sink.artifacts.filter fun artifact => artifact.outcome = .kWritten).Pairwise
    fun first second => ∀ target, sanitizeOutputPath contained first.writtenName = .ok target →
      sanitizeOutputPath contained second.writtenName ≠ .ok target
  holds : ∀ artifact ∈ sink.artifacts, artifact.outcome = .kWritten →
    ∃ target content, sanitizeOutputPath contained artifact.writtenName = .ok target ∧
      sink.destination.files target = some content ∧
        artifact.contentHash = Sha256.toHex (Sha256.sha256 content)

section Kept

/-- What a run keeps: the files are intact, and their names are taken. -/
structure Guarded (sink : RecoverySink State) : Prop where
  intact : Intact contained sink
  taken : ∀ artifact ∈ sink.artifacts, artifact.outcome = .kWritten →
    artifact.writtenName ∈ sink.used

theorem guarded_initial (destination : Destination) (device : State) :
    Guarded contained (initial destination device) := by
  refine ⟨⟨?_, ?_⟩, ?_⟩ <;> simp [initial]

theorem mem_claims {used : List Bytes} {item : Ordered} {name : Bytes} (taken : name ∈ used) :
    name ∈ claims contained used item := by
  unfold claims
  cases claimedName contained used item with
  | none => exact taken
  | some claimed => exact List.mem_cons_of_mem _ taken

theorem claimed_mem_claims {used : List Bytes} {item : Ordered} {claimed : Bytes}
    (named : claimedName contained used item = some claimed) :
    claimed ∈ claims contained used item := by
  simp [claims, named]

/-- A guarded file is not where a free winner is written. -/
theorem Guarded.elsewhere {sink : RecoverySink State} (guarded : Guarded contained sink)
    {item : Ordered} (free : Free contained sink.used item) {claimed : Bytes}
    {target other : OutputPath} (named : claimedName contained sink.used item = some claimed)
    (safe : sanitizeOutputPath contained claimed = .ok target) {artifact : ArtifactRecord}
    (member : artifact ∈ sink.artifacts) (written : artifact.outcome = .kWritten)
    (placed : sanitizeOutputPath contained artifact.writtenName = .ok other) : other ≠ target := by
  rintro rfl
  exact free claimed other named safe _ (guarded.taken artifact member written) placed

/-- Whatever a free winner does to the destination, the guarded files stay. -/
theorem Guarded.files_write {sink : RecoverySink State} (guarded : Guarded contained sink)
    {item : Ordered} (free : Free contained sink.used item) (medium : Medium)
    {artifact : ArtifactRecord} (member : artifact ∈ sink.artifacts)
    (written : artifact.outcome = .kWritten) {other : OutputPath}
    (placed : sanitizeOutputPath contained artifact.writtenName = .ok other) :
    (write contained reader medium item sink).2.destination.files other =
      sink.destination.files other := by
  rcases write_destination contained reader medium item sink with
    same | ⟨claimed, target, content, named, safe, held⟩
  · rw [same]
  · rw [held]
    exact Destination.files_hold_of_ne _ _
      (guarded.elsewhere contained free named safe member written placed)

/-- A record that is not of a written file changes nothing that is guarded. -/
theorem Guarded.extend {sink after : RecoverySink State} (guarded : Guarded contained sink)
    (artifacts : List ArtifactRecord)
    (unwritten : ∀ artifact ∈ artifacts, artifact.outcome ≠ .kWritten)
    (records : after.artifacts = sink.artifacts ++ artifacts)
    (used : ∀ name ∈ sink.used, name ∈ after.used)
    (files : ∀ artifact ∈ sink.artifacts, artifact.outcome = .kWritten → ∀ target,
      sanitizeOutputPath contained artifact.writtenName = .ok target →
        after.destination.files target = sink.destination.files target) :
    Guarded contained after := by
  have old {artifact : ArtifactRecord} (member : artifact ∈ after.artifacts)
      (written : artifact.outcome = .kWritten) : artifact ∈ sink.artifacts := by
    rw [records, List.mem_append] at member
    exact member.resolve_right fun new => unwritten artifact new written
  refine ⟨⟨?_, ?_⟩, ?_⟩
  · have none : artifacts.filter (fun artifact => artifact.outcome = .kWritten) = [] :=
      List.filter_eq_nil_iff.mpr (by simpa using unwritten)
    rw [records, List.filter_append, none, List.append_nil]
    exact guarded.intact.distinct
  · intro artifact member written
    obtain ⟨target, content, placed, held, digest⟩ :=
      guarded.intact.holds artifact (old member written) written
    exact ⟨target, content, placed, by rw [files artifact (old member written) written target placed, held],
      digest⟩
  · intro artifact member written
    exact used _ (guarded.taken artifact (old member written) written)

theorem Guarded.keep {sink : RecoverySink State} (guarded : Guarded contained sink)
    {item : Ordered} (free : Free contained sink.used item) {medium : Medium} {file : WrittenFile}
    (wrote : (write contained reader medium item sink).1 = .ok file) :
    Guarded contained ((write contained reader medium item sink).2.keep item.winner file) := by
  obtain ⟨named, safe, content, held, digest⟩ := write_ok contained reader wrote
  have records : ((write contained reader medium item sink).2.keep item.winner file).artifacts =
      sink.artifacts ++ [writtenRecord item.winner file] := by
    simp [RecoverySink.keep]
  refine ⟨⟨?_, ?_⟩, ?_⟩
  · rw [records, List.filter_append, List.pairwise_append]
    refine ⟨guarded.intact.distinct, by simp [writtenRecord, recordFor], ?_⟩
    intro old member new isNew target placed same
    obtain ⟨member, written⟩ := List.mem_filter.mp member
    obtain rfl := List.mem_singleton.mp (List.mem_of_mem_filter isNew)
    exact guarded.elsewhere contained free named same member (by simpa using written) placed rfl
  · intro artifact member written
    rw [records, List.mem_append, List.mem_singleton] at member
    rcases member with member | rfl
    · obtain ⟨target, held, placed, here, hash⟩ := guarded.intact.holds artifact member written
      refine ⟨target, held, placed, ?_, hash⟩
      rw [← here]
      exact guarded.files_write contained reader free medium member written placed
    · refine ⟨file.target, content, safe, ?_, by rw [writtenRecord, digest]⟩
      simp [RecoverySink.keep, held]
  · intro artifact member written
    rw [records, List.mem_append, List.mem_singleton] at member
    have used : ((write contained reader medium item sink).2.keep item.winner file).used =
        claims contained sink.used item := by simp [RecoverySink.keep]
    rw [used]
    rcases member with member | rfl
    · exact mem_claims contained (guarded.taken artifact member written)
    · exact claimed_mem_claims contained named

theorem Guarded.writeOne {sink : RecoverySink State} (guarded : Guarded contained sink)
    {item : Ordered} (free : Free contained sink.used item) (medium : Medium) :
    Guarded contained (writeOne contained reader medium item sink) := by
  obtain ⟨renamed, rest⟩ := write_snd contained reader medium item sink
  have files {artifact : ArtifactRecord} (member : artifact ∈ sink.artifacts)
      (written : artifact.outcome = .kWritten) {other : OutputPath}
      (placed : sanitizeOutputPath contained artifact.writtenName = .ok other) :=
    guarded.files_write contained reader free medium member written placed
  cases wrote : (write contained reader medium item sink).1 with
  | error failure =>
      rw [writeOne_error contained reader wrote]
      split <;>
      · refine guarded.extend contained [recordFor item.winner .kFailed] ?_ ?_ ?_ ?_
        · simp [recordFor]
        · simp [fail]
        · intro name taken
          simpa [fail] using mem_claims contained taken
        · intro artifact member written target placed
          exact files member written placed
  | ok file =>
      obtain ⟨named, safe, content, held, digest⟩ := write_ok contained reader wrote
      rw [writeOne_ok contained reader wrote]
      split
      · refine guarded.extend contained [recordFor item.winner .kDeduplicated] ?_ ?_ ?_ ?_
        · simp [recordFor]
        · simp [drop]
        · intro name taken
          simpa [drop] using mem_claims contained taken
        · intro artifact member written target placed
          have apart := guarded.elsewhere contained free named safe member written placed
          simp only [drop]
          split
          · rw [Destination.files_remove_of_ne _ apart]
            exact files member written placed
          · exact files member written placed
      · exact guarded.keep contained reader free wrote

/-- The run lemma: whatever the device and the destination do. -/
theorem Guarded.writeEach {sink : RecoverySink State} {items : List Ordered}
    (guarded : Guarded contained sink) (unaliased : Unaliased contained sink.used items)
    (media : Nat → Medium) : Guarded contained (writeEach contained reader media items sink) := by
  induction items generalizing sink media with
  | nil => exact guarded
  | cons item items ih =>
      have next := guarded.writeOne contained reader unaliased.1 (media 0)
      have used : (RecoverySink.writeOne contained reader (media 0) item sink).used =
          claims contained sink.used item := writeOne_used contained reader (media 0) item sink
      rw [RecoverySink.writeEach]
      split
      · refine next.extend contained (items.map fun item => recordFor item.winner .kNotAttempted)
          ?_ rfl (fun name taken => taken) (fun _ _ _ _ _ => rfl)
        simp [recordFor]
      · exact ih next (used ▸ unaliased.2) _

end Kept

section Overwritten

theorem exists_not_free {used : List Bytes} {items : List Ordered}
    (aliased : ¬ Unaliased contained used items) :
    ∃ before item after, items = before ++ item :: after ∧
      ¬ Free contained (before.foldl (claims contained) used) item := by
  induction items generalizing used with
  | nil => exact absurd trivial aliased
  | cons item items ih =>
      by_cases free : Free contained used item
      · obtain ⟨before, later, after, rfl, found⟩ := ih fun rest => aliased ⟨free, rest⟩
        exact ⟨item :: before, later, after, rfl, found⟩
      · exact ⟨[], item, items, rfl, free⟩

theorem exists_claimed {used : List Bytes} {items : List Ordered} {name : Bytes}
    (taken : name ∈ items.foldl (claims contained) used) :
    name ∈ used ∨ ∃ before item after, items = before ++ item :: after ∧
      claimedName contained (before.foldl (claims contained) used) item = some name := by
  induction items generalizing used with
  | nil => exact .inl taken
  | cons item items ih =>
      rcases ih taken with here | ⟨before, later, after, rfl, named⟩
      · unfold claims at here
        cases named : claimedName contained used item with
        | none => exact .inl (by simpa [named] using here)
        | some claimed =>
            rw [named] at here
            rcases List.mem_cons.mp here with rfl | old
            · exact .inr ⟨[], item, items, rfl, named⟩
            · exact .inl old
      · exact .inr ⟨item :: before, later, after, rfl, named⟩

/-- What winners leave that the destination refuses: failures, and nothing else
but their names. -/
structure Idle (sink after : RecoverySink State) : Prop where
  destination : after.destination = sink.destination
  written : after.written = sink.written
  stoppedBy : after.stoppedBy = sink.stoppedBy
  artifacts : ∃ failed, after.artifacts = sink.artifacts ++ failed ∧
    ∀ artifact ∈ failed, artifact.outcome = .kFailed

theorem Idle.trans {first second third : RecoverySink State} (earlier : Idle first second)
    (later : Idle second third) : Idle first third := by
  obtain ⟨failed, records, allFailed⟩ := earlier.artifacts
  obtain ⟨failed', records', allFailed'⟩ := later.artifacts
  refine ⟨later.destination.trans earlier.destination, later.written.trans earlier.written,
    later.stoppedBy.trans earlier.stoppedBy, failed ++ failed', ?_, ?_⟩
  · rw [records', records, List.append_assoc]
  · intro artifact member
    rcases List.mem_append.mp member with member | member
    · exact allFailed artifact member
    · exact allFailed' artifact member

theorem idle_refused (item : Ordered) (sink : RecoverySink State) :
    Idle sink (writeOne contained reader refusing item sink) := by
  have failed : ∃ failure, (write contained reader refusing item sink).1 = .error failure ∧
      endsTheRun failure.code = false ∧
        (write contained reader refusing item sink).2.destination = sink.destination := by
    obtain ⟨renamed, claimedSink⟩ := claimName_snd contained item sink
    rcases write_cases contained reader refusing item sink with
      ⟨_, wrote⟩ | ⟨claimed, target, named, safe, wrote⟩
    · exact ⟨unusable, by rw [wrote], rfl, by rw [wrote, claimedSink]⟩
    · refine ⟨{ code := .kIoFailure }, ?_, rfl, ?_⟩ <;>
        rw [wrote, claimedSink] <;>
        simp [writeTo, extractTo, Destination.mediumFor, refusing, Medium.writeFailureAt, Except.map]
  obtain ⟨failure, wrote, goesOn, destination⟩ := failed
  rw [writeOne_error contained reader wrote, goesOn]
  refine ⟨destination, by simp [fail], by simp [fail], [recordFor item.winner .kFailed], by simp [fail], ?_⟩
  simp [recordFor]

theorem writeEach_refused (items rest : List Ordered) (media : Nat → Medium)
    (refuses : ∀ turn < items.length, media turn = refusing) (sink : RecoverySink State)
    (going : sink.stoppedBy = none) :
    ∃ after, Idle sink after ∧ after.used = items.foldl (claims contained) sink.used ∧
      writeEach contained reader media (items ++ rest) sink =
        writeEach contained reader (fun turn => media (turn + items.length)) rest after := by
  induction items generalizing sink media with
  | nil =>
      exact ⟨sink, ⟨rfl, rfl, rfl, [], by simp, by simp⟩, rfl, rfl⟩
  | cons item items ih =>
      have here : media 0 = refusing := refuses 0 (by simp)
      have idle := idle_refused contained reader item sink
      obtain ⟨after, later, used, run⟩ := ih (fun turn => media (turn + 1))
        (fun turn inside => refuses (turn + 1) (by simpa using inside))
        (writeOne contained reader refusing item sink) (idle.stoppedBy.trans going)
      refine ⟨after, idle.trans later, ?_, ?_⟩
      · rw [used, writeOne_used, List.foldl_cons]
      · rw [List.cons_append, writeEach, here]
        simp only [idle.stoppedBy.trans going, Option.isSome_none, Bool.false_eq_true, if_false]
        rw [run, List.length_cons]
        congr 1

/-- A winner that the destination takes is in its file. -/
theorem write_accepted {item : Ordered} {sink : RecoverySink Unit} {claimed : Bytes}
    {target : OutputPath} (named : claimedName contained sink.used item = some claimed)
    (safe : sanitizeOutputPath contained claimed = .ok target)
    (clear : sink.destination.obstructed target = false) :
    ∃ file content, (write contained zeros accepting item sink).1 = .ok file ∧
      file.name = claimed ∧ file.target = target ∧
        (write contained zeros accepting item sink).2.destination =
          sink.destination.hold target content := by
  obtain ⟨renamed, claimedSink⟩ := claimName_snd contained item sink
  have clearHere : (claimName contained item sink).2.destination.obstructed target = false := by
    rw [claimedSink]
    exact clear
  rcases write_cases contained zeros accepting item sink with
    ⟨rejected, _⟩ | ⟨claimed', target', named', safe', wrote⟩
  · exact absurd safe (rejected claimed target named)
  · obtain rfl : claimed' = claimed := Option.some.inj (named'.symm.trans named)
    obtain rfl : target' = target := Except.ok.inj (safe'.symm.trans safe)
    have opens : ((claimName contained item sink).2.destination.mediumFor target' accepting).refuses =
        false := by
      simp [Destination.mediumFor, accepting, clearHere]
    obtain ⟨extracted, done⟩ := extractTo_succeeds item.winner
      (fun extent _ => zeros_readsWhole extent) opens rfl (claimName contained item sink).2.device
    have ok : (writeTo zeros accepting item.winner claimed' target'
        (claimName contained item sink).2).1 =
          .ok ⟨claimed', target', extracted.bytes, extracted.content⟩ := by
      simp only [writeTo, done, Except.map]
    obtain ⟨_, _, content, held, _⟩ := writeTo_ok zeros ok
    refine ⟨_, content, by rw [wrote, ok], rfl, rfl, ?_⟩
    rw [wrote, held, claimedSink]

/-- The turns on which the destination takes a file. -/
def twoTurns (first second : Nat) (turn : Nat) : Medium :=
  if turn = first ∨ turn = second then accepting else refusing

/-- Two files were written to one path: the second is recorded beside the first,
or it was taken for a duplicate and removed, the first with it. -/
theorem not_intact_of_second {sink after : RecoverySink Unit} {item : Ordered} {claimed : Bytes}
    {target : OutputPath} {first : ArtifactRecord} (member : first ∈ sink.artifacts)
    (firstWritten : first.outcome = .kWritten)
    (placed : sanitizeOutputPath contained first.writtenName = .ok target)
    (named : claimedName contained sink.used item = some claimed)
    (safe : sanitizeOutputPath contained claimed = .ok target)
    (clear : sink.destination.obstructed target = false)
    (idle : Idle (writeOne contained zeros accepting item sink) after) :
    ¬ Intact contained after := by
  intro intact
  obtain ⟨file, content, wrote, fileName, fileTarget, held⟩ :=
    write_accepted contained named safe clear
  have step := writeOne_ok contained zeros wrote
  obtain ⟨failed, records, _⟩ := idle.artifacts
  rw [step] at records
  split at records
  case isTrue duplicate =>
    have kept : first ∈ after.artifacts := by
      rw [records]
      simp [drop, member]
    obtain ⟨other, bytes, otherPlaced, there, _⟩ := intact.holds first kept firstWritten
    obtain rfl : other = target := Except.ok.inj (otherPlaced.symm.trans placed)
    rw [idle.destination, step, if_pos duplicate] at there
    simp [drop, accepting, fileTarget] at there
  case isFalse =>
    have both : [first, writtenRecord item.winner file].Sublist after.artifacts := by
      have here : [first].Sublist sink.artifacts := List.singleton_sublist.mpr member
      rw [records]
      simpa [keep, writtenRecord] using
        (here.append (List.Sublist.refl [writtenRecord item.winner file])).append
          (List.nil_sublist failed)
    have pair := intact.distinct.sublist (both.filter _)
    simp only [List.filter_cons, firstWritten, writtenRecord, recordFor, decide_true, if_true,
      List.filter_nil, List.pairwise_cons, List.mem_singleton, forall_eq] at pair
    exact pair.1 target placed (by rw [fileName]; exact safe)

/-- The first file is gone once a second one was written to its path. -/
theorem not_intact_of_alias (before between after : List Ordered) {first second : Ordered}
    {name claimed : Bytes} {target : OutputPath}
    (firstNamed : claimedName contained (before.foldl (claims contained) []) first = some name)
    (firstSafe : sanitizeOutputPath contained name = .ok target)
    (secondNamed : claimedName contained
      ((before ++ first :: between).foldl (claims contained) []) second = some claimed)
    (secondSafe : sanitizeOutputPath contained claimed = .ok target) :
    ¬ Intact contained (writeEach contained zeros
      (twoTurns before.length (before.length + 1 + between.length))
      (before ++ first :: (between ++ second :: after)) (initial Destination.empty ())) := by
  obtain ⟨start, idleStart, usedStart, runStart⟩ := writeEach_refused contained zeros before
    (first :: (between ++ second :: after)) (twoTurns before.length (before.length + 1 + between.length))
    (fun turn inside => by simp [twoTurns]; omega) (initial Destination.empty ()) rfl
  rw [runStart]
  have startUsed : claimedName contained start.used first = some name := usedStart ▸ firstNamed
  obtain ⟨file, content, wrote, fileName, fileTarget, held⟩ := write_accepted contained startUsed
    firstSafe (by rw [idleStart.destination]; exact Destination.not_obstructed_empty target)
  -- Nothing was written before the first file, so it is no duplicate.
  have step : writeOne contained zeros accepting first start =
      (write contained zeros accepting first start).2.keep first.winner file := by
    rw [writeOne_ok contained zeros wrote, if_neg]
    simp [isDuplicate, idleStart.written, initial]
  have going : (writeOne contained zeros accepting first start).stoppedBy = none := by
    rw [step]
    simp [keep, idleStart.stoppedBy, initial]
  have turn : twoTurns before.length (before.length + 1 + between.length) (0 + before.length) =
      accepting := by
    simp [twoTurns]
  rw [writeEach, turn]
  simp only [going, Option.isSome_none, Bool.false_eq_true, if_false]
  obtain ⟨middle, idleMiddle, usedMiddle, runMiddle⟩ := writeEach_refused contained zeros between
    (second :: after)
    (fun turn => twoTurns before.length (before.length + 1 + between.length)
      (turn + 1 + before.length))
    (fun turn inside => by simp [twoTurns]; omega)
    (writeOne contained zeros accepting first start) going
  rw [runMiddle, writeEach]
  have middleUsed : claimedName contained middle.used second = some claimed := by
    rw [usedMiddle, writeOne_used, usedStart]
    rw [List.foldl_append, List.foldl_cons] at secondNamed
    exact secondNamed
  have clear : middle.destination.obstructed target = false := by
    rw [idleMiddle.destination, step, keep, held, idleStart.destination]
    exact Destination.not_obstructed_hold target content
  have member : writtenRecord first.winner file ∈ middle.artifacts := by
    obtain ⟨failed, records, _⟩ := idleMiddle.artifacts
    rw [records, step]
    simp [keep]
  have placed : sanitizeOutputPath contained (writtenRecord first.winner file).writtenName =
      .ok target := by
    rw [← firstSafe, ← fileName, writtenRecord]
  have turn : twoTurns before.length (before.length + 1 + between.length)
      (0 + between.length + 1 + before.length) = accepting := by
    rw [twoTurns, if_pos (by omega)]
  obtain ⟨file', content', wrote', _⟩ := write_accepted contained middleUsed secondSafe clear
  have going' : (writeOne contained zeros accepting second middle).stoppedBy = none := by
    rw [writeOne_ok contained zeros wrote']
    split <;> simp [drop, keep, idleMiddle.stoppedBy, going]
  rw [turn]
  simp only [going', Option.isSome_none, Bool.false_eq_true, if_false]
  obtain ⟨last, idleLast, _, runLast⟩ := writeEach_refused contained zeros after []
    (fun turn => twoTurns before.length (before.length + 1 + between.length)
      (turn + 1 + between.length + 1 + before.length))
    (fun turn inside => by simp [twoTurns]; omega)
    (writeOne contained zeros accepting second middle) going'
  rw [List.append_nil] at runLast
  rw [runLast, writeEach]
  exact not_intact_of_second contained member rfl placed middleUsed secondSafe clear idleLast

end Overwritten

end RecoverySink
end Revenant
