import Revenant.RunDelivery

/-!
# Where a manifest says the scan got to

The statistics of a run start at zero and the checkpoint does not.  A run that
scans a region leaves both at the same byte, whatever ends it afterwards; one that
takes up a session with no region left states zero beside a checkpoint that stands
at the end.
-/

namespace Revenant

/-- Where the session holds a checkpoint of the run's work, the run's manifest
states its cursor. -/
def EndedRun.Agrees (ended : EndedRun) (session : SessionDisk) : Prop :=
  ∀ manifest, ended.manifest = some manifest →
    ∀ checkpoint, Checkpoint.readCheckpoint session = .ok checkpoint →
      checkpoint.shape = ended.shape → manifest.scannedUpTo = checkpoint.scanCursor.toNat

/-- The session directory as a run has left it by now. -/
def RecordingLog.directory (log : RecordingLog) (disk : SessionDisk) : SessionDisk :=
  disk.performAll log.session.effects

namespace RecoveryRun

open HybridRecovery IndexingVisitors CarveMatches

section Files

variable {disk : SessionDisk}

theorem checkpoint_performAll {effects : List Effect} (onFiles : ∀ effect ∈ effects, effect.OnFile) :
    (disk.performAll effects).checkpoint = disk.checkpoint := by
  induction effects generalizing disk with
  | nil => rfl
  | cons effect effects ih =>
      obtain ⟨first, rest⟩ := List.forall_mem_cons.mp onFiles
      have kept : (disk.perform effect).checkpoint = disk.checkpoint := by
        cases effect with
        | append file bytes => cases file <;> rfl
        | flush file => cases file <;> rfl
        | resize file size => cases file <;> rfl
        | replaceCheckpoint bytes => exact first.elim
        | removeCheckpoint => exact first.elim
      exact (ih rest).trans kept

theorem onFiles_writeEntry (index : CandidateIndex) (candidate : Candidate) :
    ∀ effect ∈ (index.writeEntry candidate).1, effect.OnFile := by
  simp [CandidateIndex.writeEntry, Effect.OnFile]

theorem onFiles_create : ∀ effect ∈ CandidateIndex.create.1, effect.OnFile := by
  simp [CandidateIndex.create, Effect.OnFile]

theorem onFiles_reopen {records : Nat} {effects : List Effect} {index : CandidateIndex}
    (reopened : CandidateIndex.reopen disk records = .ok (effects, index)) :
    ∀ effect ∈ effects, effect.OnFile := by
  unfold CandidateIndex.reopen at reopened
  split at reopened
  · cases reopened
  · cases reopened
    simp [Effect.OnFile]

end Files

section Opening

variable {around : Surroundings} {shape : Sha256Digest} {disk : SessionDisk} {session : OpenSession}

/-- What opening a session comes to: a fresh one without a checkpoint, or the one
that was there with its checkpoint where it was. -/
def Opened (shape : Sha256Digest) (disk : SessionDisk) (session : OpenSession) : Prop :=
  (session.resumeFrom = none ∧ (disk.performAll session.effects).checkpoint = none) ∨
    ∃ stored, Checkpoint.readCheckpoint disk = .ok stored ∧ stored.shape = shape ∧
      session.resumeFrom = some stored.scanCursor.toNat ∧
        (disk.performAll session.effects).checkpoint = disk.checkpoint

theorem checkpoint_freshSession :
    (disk.performAll Session.freshSession.effects).checkpoint = none :=
  checkpoint_performAll onFiles_create

theorem opened_freshSession (opened : (freshSession around).session = .ok session) :
    (freshSession around).effects = session.effects ∧ Opened shape disk session := by
  unfold freshSession at opened ⊢
  split at opened
  · cases opened
    exact ⟨rfl, .inl ⟨rfl, checkpoint_freshSession⟩⟩
  · cases opened

theorem opened_continuedSession {stored : Checkpoint}
    (read : Checkpoint.readCheckpoint disk = .ok stored) (ours : stored.shape = shape)
    (opened : (continuedSession around disk stored).session = .ok session) :
    (continuedSession around disk stored).effects = session.effects ∧
      Opened shape disk session := by
  unfold continuedSession at opened ⊢
  split at opened
  · exact opened_freshSession opened
  next =>
    -- The index would not open: a fresh session after whatever the attempt left.
    unfold freshSession at opened ⊢
    cases created : around.uncreated with
    | some remnant => simp [created] at opened
    | none =>
        simp only [created, Except.ok.injEq] at opened ⊢
        subst opened
        refine ⟨rfl, .inl ⟨rfl, ?_⟩⟩
        rw [performAll_append]
        exact checkpoint_freshSession
  next effects index reopened _ =>
    cases opened
    exact ⟨rfl, .inr ⟨stored, read, ours, rfl, checkpoint_performAll (onFiles_reopen reopened)⟩⟩

theorem opened_openSession (opened : (openSession around shape disk).session = .ok session) :
    (openSession around shape disk).effects = session.effects ∧ Opened shape disk session := by
  unfold openSession at opened ⊢
  split at opened
  · exact opened_freshSession opened
  next stored resumable =>
    unfold Session.resumable at resumable
    split at resumable
    · cases resumable
    next held read =>
      split at resumable
      · cases resumable
      next ours =>
        cases resumable
        exact opened_continuedSession read (not_not.mp ours) opened

end Opening

section Recording

variable {around : Surroundings} {shape : Sha256Digest} {disk : SessionDisk}

theorem checkpoint_append (candidate : Candidate) (log : RecordingLog) :
    ((append around candidate log).directory disk).checkpoint = (log.directory disk).checkpoint := by
  unfold append
  split
  · exact (congrArg SessionDisk.checkpoint (performAll_append _ _ disk)).trans
      (checkpoint_performAll (onFiles_writeEntry log.session.index candidate))
  next remnant _ =>
    exact (congrArg SessionDisk.checkpoint (performAll_append _ _ disk)).trans
      (checkpoint_performAll remnant.onFiles)

theorem checkpoint_entries (entries : List RecoveredEntry) (log : RecordingLog) :
    ((entries.foldl (fun log entry => (recorders around shape).onEntry entry log) log).directory
      disk).checkpoint = (log.directory disk).checkpoint := by
  induction entries generalizing log with
  | nil => rfl
  | cons entry entries ih =>
      exact (ih (append around (candidateOfEntry entry) log)).trans (checkpoint_append _ log)

/-- A filesystem pass touches no checkpoint. -/
theorem checkpoint_runFilesystemPass (plan : RecoveryPlan) (walk : Walk) (log : RecordingLog) :
    ((runFilesystemPass (recorders around shape) plan walk log).1.directory disk).checkpoint =
      (log.directory disk).checkpoint := by
  unfold runFilesystemPass
  split
  · rfl
  · split
    · rfl
    · exact checkpoint_entries walk.reported log

/-- The checkpoint stands at this byte, as this run's. -/
def Stands (shape : Sha256Digest) (cursor : Nat) (disk : SessionDisk) : Prop :=
  cursor < 2 ^ 64 ∧ ∃ records, Checkpoint.readCheckpoint disk = .ok ⟨shape, UInt64.ofNat cursor, records⟩

theorem Stands.cursor_eq {cursor : Nat} (stands : Stands shape cursor disk) {checkpoint : Checkpoint}
    (read : Checkpoint.readCheckpoint disk = .ok checkpoint) :
    checkpoint.scanCursor.toNat = cursor := by
  obtain ⟨word, records, held⟩ := stands
  rw [held, Except.ok.injEq] at read
  rw [← read, UInt64.toNat_ofNat', Nat.mod_eq_of_lt word]

/-- A region reported either moves the checkpoint to its end or breaks the session
and stops the scan. -/
theorem stands_onScanned {cursor : Nat} (word : cursor < 2 ^ 64) (log : RecordingLog) :
    Stands shape cursor ((onScanned around shape cursor log).2.directory disk) ∨
      (onScanned around shape cursor log).1 = false ∧
        (onScanned around shape cursor log).2.unwritable ≠ none := by
  unfold onScanned
  split
  · refine .inl ⟨word, UInt64.ofNat log.session.index.count, ?_⟩
    unfold RecordingLog.directory
    simp only [Session.onScanned]
    rw [performAll_append]
    exact Checkpoint.readCheckpoint_perform _ _
  · exact .inr ⟨rfl, nofun⟩

variable {scan : ScanRegion → List Report × Result ScanStats}

/-- However the loop over the regions is stopped, the totals and the checkpoint
stop at the same byte. -/
theorem stands_scanRegionsFrom {regions : List ScanRegion} {totals final : ScanTotals}
    {log last : RecordingLog}
    (begun : regions = [] → Stands shape totals.scannedUpTo (log.directory disk))
    (ran : scanRegionsFrom (recorders around shape) scan regions totals log = (last, .ok final))
    (written : last.unwritable = none) : Stands shape final.scannedUpTo (last.directory disk) := by
  induction regions generalizing totals log with
  | nil =>
      cases ran
      exact begun rfl
  | cons region regions ih =>
      cases scanned : (scan region).2 with
      | error error =>
          rw [scanRegionsFrom_failed scanned] at ran
          cases ran
      | ok stats =>
          rw [scanRegionsFrom_scanned scanned] at ran
          have word : ScanRegions.endOf region < 2 ^ 64 := Nat.mod_lt _ (by decide)
          have reported := @stands_onScanned around shape disk _ word
            (HybridRecovery.logged (recorders around shape) (scan region).1 log)
          simp only at ran
          split at ran
          case isTrue carries =>
            cases reported with
            | inl stands => exact ih (fun _ => stands) ran
            | inr broken => exact absurd (carries.symm.trans broken.1) nofun
          case isFalse stopped =>
            cases ran
            cases reported with
            | inl stands => exact stands
            | inr broken => exact absurd written broken.2

end Recording

section Runs

variable {run : RecoveryRun} {sorter : Sorter} {disk : SessionDisk} {session : OpenSession}
  {stats : RecoveryStats} {pass : FilesystemPass}

theorem withResumableSession_eq_ok {result : Result RecoveryStats} {unwritable : Option Error}
    (scanned : withResumableSession result unwritable = .ok stats) :
    result = .ok stats ∧ unwritable = none := by
  cases unwritable with
  | none => exact ⟨scanned, rfl⟩
  | some error => cases scanned

theorem withoutLostRecords_eq_ok {result : Result RecoveryStats} {lostRecords : Nat}
    (scanned : withoutLostRecords result lostRecords = .ok stats) : result = .ok stats := by
  unfold withoutLostRecords at scanned
  split at scanned
  · exact scanned
  · cases scanned

/-- The regions a run with this session is left with. -/
def regionsLeft (run : RecoveryRun) (session : OpenSession) (pass : FilesystemPass) :
    List ScanRegion :=
  carveRegions (run.planFor session) pass run.deviceSize

/-- A scan that ends with statistics made its filesystem pass, and what it states
is where the loop over its regions stopped. -/
theorem indexFindings_eq_ok (disk : SessionDisk)
    (scanned : (run.indexFindings session).2 = .ok stats) :
    ∃ pass log final,
      passOf run.request.mode run.walk = .ok pass ∧
        (log.directory disk).checkpoint = (disk.performAll session.effects).checkpoint ∧
          scanRegionsFrom (recorders run.around run.shape) run.scan (run.regionsLeft session pass)
            ⟨0, 0, true, 0⟩ log = ((run.indexFindings session).1, .ok final) ∧
            final.scannedUpTo = stats.scannedUpTo := by
  have succeeded := withoutLostRecords_eq_ok scanned
  have walked := runFilesystemPass_snd (recorders run.around run.shape) (run.planFor session)
    run.walk ⟨⟨session.effects, session.index⟩, 0, none⟩
  have kept := @checkpoint_runFilesystemPass run.around run.shape disk (run.planFor session)
    run.walk ⟨⟨session.effects, session.index⟩, 0, none⟩
  unfold indexFindings
  unfold HybridRecovery.run at succeeded ⊢
  generalize runFilesystemPass (recorders run.around run.shape) (run.planFor session) run.walk
    ⟨⟨session.effects, session.index⟩, 0, none⟩ = passed at walked kept succeeded ⊢
  obtain ⟨log, outcome⟩ := passed
  cases outcome with
  | error error => cases succeeded
  | ok pass =>
      simp only [scanRegions] at succeeded ⊢
      generalize ran : scanRegionsFrom (recorders run.around run.shape) run.scan
        (carveRegions (run.planFor session) pass run.deviceSize) ⟨0, 0, true, 0⟩ log = looped
        at succeeded
      obtain ⟨last, totals⟩ := looped
      cases totals with
      | error error => cases succeeded
      | ok final =>
          cases succeeded
          exact ⟨pass, log, final, walked.symm, kept, ran, rfl⟩

/-- A session that does not open ends the scan. -/
theorem openSession_of_scanned (scanned : (run.scanSession disk).2 = .ok stats) :
    ∃ session, (openSession run.around run.shape disk).session = .ok session := by
  unfold scanSession at scanned
  generalize openSession run.around run.shape disk = opening at scanned ⊢
  obtain ⟨effects, outcome⟩ := opening
  cases outcome with
  | error error => cases scanned
  | ok session => exact ⟨session, rfl⟩

/-- A scan that ends with statistics had regions left, and the checkpoint stands
where they say it got to, or it had none and moved no checkpoint. -/
theorem scanSession_eq_ok (opened : (openSession run.around run.shape disk).session = .ok session)
    (scanned : (run.scanSession disk).2 = .ok stats) :
    ∃ pass, passOf run.request.mode run.walk = .ok pass ∧
      (Stands run.shape stats.scannedUpTo (disk.performAll (run.scanSession disk).1) ∨
        run.regionsLeft session pass = [] ∧
          (disk.performAll (run.scanSession disk).1).checkpoint =
            (disk.performAll session.effects).checkpoint) := by
  unfold scanSession at scanned ⊢
  generalize openSession run.around run.shape disk = opening at opened scanned ⊢
  obtain ⟨effects, outcome⟩ := opening
  cases opened
  obtain ⟨found, written⟩ := withResumableSession_eq_ok scanned
  obtain ⟨pass, log, final, passed, kept, ran, position⟩ := indexFindings_eq_ok disk found
  refine ⟨pass, passed, ?_⟩
  cases left : run.regionsLeft session pass with
  | nil =>
      rw [left] at ran
      have unmoved : log = (run.indexFindings session).1 := (Prod.mk.inj ran).1
      rw [unmoved] at kept
      exact .inr ⟨rfl, kept⟩
  | cons region regions =>
      have some_ : run.regionsLeft session pass ≠ [] := left ▸ nofun
      rw [← position]
      exact .inl (stands_scanRegionsFrom (fun none_ => absurd none_ some_) ran written)

/-- The statistics of a resumed run with no region left. -/
def nothingScanned (pass : FilesystemPass) : RecoveryStats := statsOf pass ⟨0, 0, true, 0⟩

/-- A resumed run with no region left does nothing but open its session. -/
theorem scanSession_of_regionsLeft_eq_nil
    (opened : openSession run.around run.shape disk = ⟨session.effects, .ok session⟩)
    (resumed : session.resumeFrom.isSome) (passed : passOf run.request.mode run.walk = .ok pass)
    (none_ : run.regionsLeft session pass = []) :
    run.scanSession disk = (session.effects, .ok (nothingScanned pass)) := by
  have walked : runFilesystemPass (recorders run.around run.shape) (run.planFor session) run.walk
      ⟨⟨session.effects, session.index⟩, 0, none⟩ =
        (⟨⟨session.effects, session.index⟩, 0, none⟩, .ok pass) := by
    rw [runFilesystemPass_resumed (recorders run.around run.shape) resumed, ← passed]
    rfl
  have found : run.indexFindings session =
      (⟨⟨session.effects, session.index⟩, 0, none⟩, .ok (nothingScanned pass)) := by
    unfold indexFindings HybridRecovery.run
    unfold regionsLeft at none_
    rw [walked]
    simp only [none_]
    rfl
  unfold scanSession
  rw [opened]
  simp only [found]
  rfl

end Runs

section Manifests

variable {run : RecoveryRun} {sorter : Sorter} {session : SessionDisk}

/-- Both manifests of a delivery state how far the scan got. -/
theorem delivered_scannedUpTo {found : Discovery} {manifest : SessionManifest}
    (left : (RunDelivery.delivered run found).1 = some manifest) :
    manifest.scannedUpTo = found.stats.scannedUpTo := by
  unfold RunDelivery.delivered at left
  split at left
  · cases left
  · simp only [RunDelivery.recorded] at left
    split at left
    · cases left
      rfl
    · cases left
      rfl

theorem stopped_scannedUpTo {scanned : Result RecoveryStats} {manifest : SessionManifest}
    (left : (RunDelivery.stopped run session scanned).1 = some manifest) :
    manifest.scannedUpTo = RunDelivery.scannedUpTo session scanned := by
  simp only [RunDelivery.stopped] at left
  split at left
  · cases left
  · split at left
    · cases left
    · cases left
      rfl

/-- Whatever ended a run, the manifest it leaves states how far the scan got. -/
theorem decideAndDeliver_scannedUpTo {scanned : Result RecoveryStats} {manifest : SessionManifest}
    (left : (RunDelivery.decideAndDeliver run sorter session scanned).1 = some manifest) :
    manifest.scannedUpTo = RunDelivery.scannedUpTo session scanned := by
  unfold RunDelivery.decideAndDeliver at left
  split at left
  · exact stopped_scannedUpTo left
  · split at left
    · split at left
      · cases left
      · exact delivered_scannedUpTo left
    · exact stopped_scannedUpTo left

/-- What a run over a finished scan needs to leave a manifest: an index that can be
read back, and a session directory that takes it. -/
structure Records (run : RecoveryRun) (sorter : Sorter) (session : SessionDisk) : Prop where
  decided : (arbitrateIndex sorter session).toBool = true
  recorded : run.unrecorded = none

theorem delivered_isSome_iff {found : Discovery} :
    (RunDelivery.delivered run found).1.isSome ↔ run.unrecorded = none := by
  unfold RunDelivery.delivered
  split
  · next refused => simp [refused]
  · next free =>
      simp only [RunDelivery.recorded, free, iff_true]
      split <;> rfl

theorem decideAndDeliver_isSome_iff {stats : RecoveryStats} (complete : stats.scanComplete = true) :
    (RunDelivery.decideAndDeliver run sorter session (.ok stats)).1.isSome ↔
      run.Records sorter session := by
  simp only [RunDelivery.decideAndDeliver, complete, if_true]
  cases decided : arbitrateIndex sorter session with
  | error error =>
      constructor
      · nofun
      · intro records
        have := records.decided
        rw [decided] at this
        cases this
  | ok result =>
      refine delivered_isSome_iff.trans ⟨fun free => ⟨?_, free⟩, Records.recorded⟩
      rw [decided]
      rfl

end Manifests

section Agreement

variable (run : RecoveryRun) (sorter : Sorter) (disk : SessionDisk)

/-- The run takes up a checkpoint past the start of the device, finds nothing to
carve behind it, and gets to leave a manifest. -/
def NothingLeft : Prop :=
  ∃ (session : OpenSession) (cursor : Nat) (pass : FilesystemPass),
    run.unprepared = none ∧ openSession run.around run.shape disk = ⟨session.effects, .ok session⟩ ∧
      session.resumeFrom = some cursor ∧ 0 < cursor ∧
        passOf run.request.mode run.walk = .ok pass ∧ run.regionsLeft session pass = [] ∧
          run.Records sorter (disk.performAll session.effects)

/-- The session directory a run leaves. -/
def leaves : SessionDisk := disk.performAll (run.recoverInto sorter disk).effects

variable {run sorter disk}

/-- A resumed run with no region left states zero. -/
theorem not_agrees_of_nothingLeft (nothing : run.NothingLeft sorter disk) :
    ¬ (run.recoverInto sorter disk).outcome.Agrees (run.leaves sorter disk) := by
  obtain ⟨session, cursor, pass, prepared, opened, resumed, ahead, passed, none_, records⟩ := nothing
  have scanned := scanSession_of_regionsLeft_eq_nil opened (by rw [resumed]; rfl) passed none_
  have kept := (opened_openSession (congrArg Opening.session opened)).2
  unfold leaves recoverInto EndedRun.Agrees
  simp only [prepared, scanned]
  have complete : (nothingScanned pass).scanComplete = true := rfl
  obtain ⟨manifest, left⟩ := Option.isSome_iff_exists.mp
    ((decideAndDeliver_isSome_iff complete).mpr records)
  rcases kept with ⟨fresh, -⟩ | ⟨stored, read, ours, from_, stays⟩
  · exact absurd (resumed.symm.trans fresh) nofun
  · intro agrees
    have zero : manifest.scannedUpTo = 0 := decideAndDeliver_scannedUpTo left
    have cursor_ : manifest.scannedUpTo = stored.scanCursor.toNat :=
      agrees manifest left stored ((Checkpoint.readCheckpoint_congr stays).trans read) ours
    rw [resumed, Option.some.injEq] at from_
    omega

/-- A scan that ends with statistics states where the checkpoint stands, unless
there was nothing left to scan. -/
theorem scannedUpTo_eq_cursor {stats : RecoveryStats} {manifest : SessionManifest}
    {checkpoint : Checkpoint} (somethingLeft : ¬ run.NothingLeft sorter disk)
    (prepared : run.unprepared = none) (scanned : (run.scanSession disk).2 = .ok stats)
    (left : (RunDelivery.decideAndDeliver run sorter (disk.performAll (run.scanSession disk).1)
      (.ok stats)).1 = some manifest)
    (read : Checkpoint.readCheckpoint (disk.performAll (run.scanSession disk).1) = .ok checkpoint) :
    stats.scannedUpTo = checkpoint.scanCursor.toNat := by
  obtain ⟨session, begun⟩ := openSession_of_scanned scanned
  obtain ⟨effects, kept⟩ := opened_openSession begun
  have opened : openSession run.around run.shape disk = ⟨session.effects, .ok session⟩ := by
    rw [← effects, ← begun]
  obtain ⟨pass, passed, stands | ⟨none_, stays⟩⟩ := scanSession_eq_ok begun scanned
  · exact (stands.cursor_eq read).symm
  · rw [Checkpoint.readCheckpoint_congr stays] at read
    rcases kept with ⟨-, removed⟩ | ⟨stored, held, -, resumed, unmoved⟩
    · rw [Checkpoint.readCheckpoint, removed] at read
      cases read
    · rw [Checkpoint.readCheckpoint_congr unmoved, held, Except.ok.injEq] at read
      have idle := scanSession_of_regionsLeft_eq_nil opened (by rw [resumed]; rfl) passed none_
      rw [idle, Except.ok.injEq] at scanned
      rw [idle, ← scanned] at left
      have zero : stats.scannedUpTo = 0 := by
        rw [← scanned]
        rfl
      rw [zero, ← read]
      by_contra ahead
      -- The cursor is past zero, so this is the run with nothing left.
      apply somethingLeft
      refine ⟨session, stored.scanCursor.toNat, pass, prepared, opened, resumed,
        Nat.pos_of_ne_zero (Ne.symm ahead), passed, none_, ?_⟩
      have complete : (nothingScanned pass).scanComplete = true := rfl
      apply (decideAndDeliver_isSome_iff complete).mp
      rw [left]
      rfl

/-- Any other run agrees with the checkpoint it leaves, whatever ended it. -/
theorem agrees_of_not_nothingLeft (somethingLeft : ¬ run.NothingLeft sorter disk) :
    (run.recoverInto sorter disk).outcome.Agrees (run.leaves sorter disk) := by
  intro manifest left checkpoint read ours
  unfold leaves recoverInto at *
  cases prepared : run.unprepared with
  | some error => simp [prepared] at left
  | none =>
      simp only [prepared] at left read
      rw [decideAndDeliver_scannedUpTo left]
      cases scanned : (run.scanSession disk).2 with
      | error error => simp only [RunDelivery.scannedUpTo, read]
      | ok stats =>
          rw [scanned] at left
          exact scannedUpTo_eq_cursor somethingLeft prepared scanned left read

/-- A directory without a checkpoint has everything left. -/
theorem not_nothingLeft_of_checkpoint_none (none_ : disk.checkpoint = none) :
    ¬ run.NothingLeft sorter disk := by
  rintro ⟨session, cursor, pass, -, opened, resumed, -⟩
  rcases (opened_openSession (congrArg Opening.session opened)).2 with ⟨fresh, -⟩ | ⟨stored, read, -⟩
  · exact absurd (resumed.symm.trans fresh) nofun
  · rw [Checkpoint.readCheckpoint, none_] at read
    cases read

theorem agrees_recoverInto_iff :
    (run.recoverInto sorter disk).outcome.Agrees (run.leaves sorter disk) ↔
      ¬ run.NothingLeft sorter disk := by
  constructor
  · exact fun agrees nothing => not_agrees_of_nothingLeft nothing agrees
  · exact agrees_of_not_nothingLeft

end Agreement

section Histories

theorem performs_performAll {effects : List Effect} {disk final : SessionDisk}
    (performs : sessionModel.Performs effects disk final) : final = disk.performAll effects := by
  induction performs with
  | nil => rfl
  | cons _ _ ih => exact ih

/-- The runs that may start on a directory, of those that `May`. -/
def Starts (sorter : Sorter) (May : RecoveryRun → SessionDisk → Prop) (disk : SessionDisk)
    (process : Process Effect EndedRun) : Prop :=
  ∃ run, May run disk ∧ process = run.recoverInto sorter disk

/-- However runs follow on one another, crash or end, what a run that ended says of
its scan agrees with the checkpoint in the directory. -/
def AlwaysAgrees (sorter : Sorter) (May : RecoveryRun → SessionDisk → Prop) : Prop :=
  ∀ initial disk ended,
    sessionModel.Reaches (Starts sorter May) initial (disk, some ⟨[], ended⟩) → ended.Agrees disk

/-- A run agrees with the checkpoint it leaves exactly when it did not take up a
session with nothing left to scan, and so does every run of any history of such. -/
theorem alwaysAgrees_somethingLeft (sorter : Sorter) :
    (∀ (run : RecoveryRun) (disk : SessionDisk),
      (run.recoverInto sorter disk).outcome.Agrees (run.leaves sorter disk) ↔
        ¬ run.NothingLeft sorter disk) ∧
      AlwaysAgrees sorter fun run disk => ¬ run.NothingLeft sorter disk := by
  constructor
  · exact fun run disk => agrees_recoverInto_iff
  · intro initial disk ended reached
    have started : ∀ store process, True →
        Starts sorter (fun run disk => ¬ run.NothingLeft sorter disk) store process →
          sessionModel.Safe (fun _ => True) process.outcome.Agrees process.effects store := by
      rintro store process - ⟨run, somethingLeft, rfl⟩
      apply CrashModel.safe_of_performs
      intro final performs
      rw [performs_performAll performs]
      exact agrees_of_not_nothingLeft somethingLeft
    have kept : CrashModel.Kept sessionModel (fun _ => True) (fun _ => True) EndedRun.Agrees
        (disk, some ⟨[], ended⟩) :=
      CrashModel.kept_of_reaches (fun _ _ _ _ => trivial) started trivial reached
    exact kept.2

section Samples

theorem performs_of_addressable {effects : List Effect} {disk : SessionDisk}
    (room : ∀ done < effects.length + 1, (disk.performAll (effects.take done)).Addressable) :
    sessionModel.Performs effects disk (disk.performAll effects) := by
  induction effects generalizing disk with
  | nil => exact .nil
  | cons effect effects ih =>
      apply CrashModel.Performs.cons
      · exact room 1 (by simp)
      · exact ih fun done within => room (done + 1) (Nat.succ_lt_succ within)

/-- A run that started where any history led, ended. -/
theorem reaches_ended {sorter : Sorter} {May : RecoveryRun → SessionDisk → Prop}
    {initial disk : SessionDisk} {run : RecoveryRun}
    (reached : sessionModel.Reaches (Starts sorter May) initial (disk, none)) (may : May run disk)
    (room : ∀ done < (run.recoverInto sorter disk).effects.length + 1,
      (disk.performAll ((run.recoverInto sorter disk).effects.take done)).Addressable) :
    sessionModel.Reaches (Starts sorter May) initial
      (run.leaves sorter disk, some ⟨[], (run.recoverInto sorter disk).outcome⟩) :=
  CrashModel.reaches_end (reached.tail (.start ⟨run, may, rfl⟩)) (performs_of_addressable room)

/-- A preview of a five-byte image that nothing happens to. -/
def previewed : RecoveryRun where
  request := ⟨.kCarveOnly, []⟩
  delivery := .kPreview
  deviceSize := SignatureScanner.overtakenImage.device.sizeInBytes
  scan := SignatureScanner.scanRegion Sorter.insertion SignatureScanner.overtakenImage.device
    SignatureScanner.overtakingRegistry ⟨8, 8⟩
  walk := ⟨[], .error { code := .kInvalidArgument }⟩
  around := undisturbed
  startBytes := 0
  damage := []
  deliver _ _ := (⟨⟨0, 0, 0, 0, 0, 0⟩, [], none⟩, [])
  unprepared := none
  unrecorded := none
  unfinished := none

/-- The session directory the preview leaves. -/
def previewedDirectory : SessionDisk := previewed.leaves Sorter.insertion Session.emptyDirectory

theorem room_previewed :
    ∀ done < (previewed.recoverInto Sorter.insertion Session.emptyDirectory).effects.length + 1,
      (Session.emptyDirectory.performAll
        ((previewed.recoverInto Sorter.insertion Session.emptyDirectory).effects.take
          done)).Addressable := by
  decide +kernel

/-- The same command without the preview. -/
def extracted : RecoveryRun := { previewed with delivery := .kExtract }

/-- Over a directory without a checkpoint a run states the end of the image, where
the checkpoint then stands. -/
theorem previewed_agrees :
    (previewed.recoverInto Sorter.insertion Session.emptyDirectory).outcome.manifest.map
        SessionManifest.scannedUpTo = some 5 ∧
      (previewed.recoverInto Sorter.insertion Session.emptyDirectory).outcome.Agrees
        previewedDirectory := by
  constructor
  · decide +kernel
  · exact (alwaysAgrees_somethingLeft Sorter.insertion).2 Session.emptyDirectory _ _
      (reaches_ended .refl (not_nothingLeft_of_checkpoint_none rfl) room_previewed)

/-- Extracted after the preview, a session with nothing left states zero. -/
theorem resumedAtEnd_statesZero : ¬ AlwaysAgrees Sorter.insertion fun _ _ => True := by
  intro always
  have first : sessionModel.Reaches (Starts Sorter.insertion fun _ _ => True)
      Session.emptyDirectory (previewedDirectory, none) := by
    have ended : sessionModel.Reaches (Starts Sorter.insertion fun _ _ => True)
        Session.emptyDirectory (previewedDirectory, some ⟨[], _⟩) :=
      reaches_ended .refl trivial room_previewed
    exact ended.tail (.crash (SessionDisk.tears_self (by decide +kernel) (by decide +kernel)))
  have agrees : (extracted.recoverInto Sorter.insertion previewedDirectory).outcome.Agrees
      (extracted.leaves Sorter.insertion previewedDirectory) :=
    always Session.emptyDirectory _ _ (reaches_ended first trivial (by decide +kernel))
  have zero : (extracted.recoverInto Sorter.insertion previewedDirectory).outcome.manifest.map
      SessionManifest.scannedUpTo = some 0 := by decide +kernel
  have stands : Checkpoint.readCheckpoint (extracted.leaves Sorter.insertion previewedDirectory) =
      .ok ⟨extracted.shape, 5, 1⟩ := by decide +kernel
  obtain ⟨manifest, left, zero⟩ := Option.map_eq_some_iff.mp zero
  have five := agrees manifest left _ stands rfl
  rw [zero] at five
  exact absurd five (by decide)

end Samples

end Histories

end RecoveryRun
end Revenant
