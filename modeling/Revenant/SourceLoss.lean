import Revenant.VolumeWalk

/-!
# A source that is lost during the filesystem pass

Mounting hands on a lost source.  No walk does: once a volume is mounted, a
directory or a record that cannot be read because the source is gone is passed
over like any other that will not read, and over a disk even the mount is.
-/

namespace Revenant

open Consulting

def SourceLost (error : Error) : Prop := error.code = .kSourceLost

/-- Some read was answered with the loss of the source. -/
def HeardLoss (answers : ReadLog) : Prop := ∃ error, .error error ∈ answers ∧ SourceLost error

/-- The outcome is the loss of the source. -/
def EndsLost {Value : Type} (outcome : Result Value) : Prop :=
  ∃ error, outcome = .error error ∧ SourceLost error

@[simp]
theorem endsLost_error {Value : Type} {error : Error} :
    EndsLost (.error error : Result Value) ↔ SourceLost error := by
  simp [EndsLost]

@[simp]
theorem not_endsLost_ok {Value : Type} (value : Value) : ¬ EndsLost (.ok value : Result Value) :=
  fun ⟨_, failed, _⟩ => nomatch failed

section Mounting

variable (source : Source)

theorem readAt_relays (offset bufferSize : Nat) :
    Relays (source.readAt offset bufferSize) SourceLost :=
  Relays.ask

theorem read_relays (offset bufferSize : Nat) : Relays (source.read offset bufferSize) SourceLost := by
  apply Relays.bind (readAt_relays source offset bufferSize)
  exact fun got => Relays.reject Relays.pure

theorem readMountRegion_relays (offset length : Nat) :
    Relays (source.readMountRegion offset length) SourceLost := by
  apply Relays.bind (readAt_relays source offset length)
  exact fun got => Relays.reject Relays.pure

/-- The next filesystem is asked only after an answer that was no loss. -/
theorem firstMounted_relays {mounters : List (Attempt MountedVolume)}
    (each : ∀ mounter ∈ mounters, Relays mounter SourceLost) :
    Relays (firstMounted mounters) SourceLost := by
  induction mounters with
  | nil => exact Relays.throw
  | cons mounter mounters ih =>
      intro log
      obtain ⟨heard, later, relayed⟩ := each mounter List.mem_cons_self log
      unfold firstMounted
      rcases told : mounter log with ⟨outcome, after⟩
      rw [told] at later relayed
      obtain rfl : after = heard ++ log := later
      cases outcome with
      | ok mounted => exact ⟨heard, rfl, fun other member lost => nomatch relayed other member lost⟩
      | error error =>
          have same : ∀ other, .error other ∈ heard → SourceLost other → error = other :=
            fun other member lost => Except.error.inj (relayed other member lost)
          dsimp only
          split
          case isTrue another =>
              obtain ⟨more, last, relayedMore⟩ :=
                ih (fun one member => each one (List.mem_cons_of_mem _ member)) (heard ++ log)
              refine ⟨more ++ heard, ?_, fun other member lost => ?_⟩
              · rw [List.append_assoc]
                exact last
              · rcases List.mem_append.mp member with new | old
                · exact relayedMore other new lost
                · rw [same other old lost] at another
                  exact nomatch another.symm.trans lost
          case isFalse => exact ⟨heard, rfl, relayed⟩

/-- A source lost while a volume is mounted is what mounting it ends with. -/
theorem mountVolume_relays : Relays (mountVolume source) SourceLost := by
  apply firstMounted_relays
  intro mounter member
  simp only [kMounters, List.mem_cons, List.not_mem_nil, or_false] at member
  rcases member with rfl | rfl | rfl | rfl
  · apply Relays.bind (readMountRegion_relays source _ _)
    intro sector
    apply Relays.bind Relays.settled
    intro geometry
    have record : Relays (Ntfs.readRecordZero source geometry) SourceLost :=
      Relays.bind (read_relays source _ _) fun raw => Relays.settled
    have table : Relays (Ntfs.MftTable.open_ source geometry) SourceLost :=
      Relays.bind record fun recordZero => Relays.bind Relays.settled fun layout => Relays.pure
    exact Relays.bind table fun table => Relays.pure
  all_goals
    apply Relays.bind (readMountRegion_relays source _ _)
    intro region
    exact Relays.bind Relays.settled fun geometry => Relays.pure

end Mounting

namespace DirectoryTree

variable {Cursor Item Origin : Type} (tree : DirectoryTree Cursor Item Origin)

theorem walkOne_ends (cursor : Cursor) (walk : tree.Walk) :
    Always (tree.walkOne cursor walk) fun walked =>
      ∀ error, walked.2 = .error error → error.code = .kIoFailure := by
  refine Always.bind Always.trivial fun outcome _ => ?_
  cases outcome with
  | ok bytes => exact Always.bind Always.trivial fun visited _ => Always.pure fun _ same => nomatch same
  | error met =>
      refine Always.pure fun error same => ?_
      dsimp only [skipUnreadableDirectory] at same
      split at same
      case isTrue failure =>
          cases same
          exact failure
      case isFalse => cases same

/-- A walk that does not get through a tree ends with a failed read and with
nothing else. -/
theorem walkTree_ends (root : Cursor) :
    Always (tree.walkTree root) fun walked =>
      ∀ error, walked.2 = .error error → error.code = .kIoFailure := by
  intro log
  show ∀ error, (tree.driveWorklist (TreeWalk.start root) log).1.2 = .error error → _
  fun_induction driveWorklist tree (TreeWalk.start root) log with
  | case1 walk log drained =>
      intro _ same
      cases same
  | case2 walk log cursor rest waiting walked error failed =>
      intro other same
      exact tree.walkOne_ends cursor (walk.entering cursor) log other (failed.trans same)
  | case3 walk log cursor rest waiting walked succeeded ih => exact ih

end DirectoryTree

section Walking

theorem stepRecord_ends (table : Ntfs.MftTable) (number : Nat) :
    Always (Ntfs.stepRecord table number) fun came =>
      ∀ error, came = .error error → error.code = .kIoFailure := by
  refine Always.bind Always.trivial fun outcome _ => ?_
  cases outcome with
  | ok view => exact Always.bind Always.trivial fun report _ => Always.pure fun _ same => nomatch same
  | error met =>
      refine Always.pure fun error same => ?_
      split at same
      case isTrue failure =>
          cases same
          exact failure
      case isFalse => cases same

theorem enumerateEntries_ends (table : Ntfs.MftTable) :
    Always (Ntfs.enumerateEntries table) fun walked =>
      ∀ error, walked.2 = .error error → error.code = .kIoFailure := by
  have from_ : ∀ left number walk, Always (Ntfs.enumerateFrom table left number walk) fun walked =>
      ∀ error, walked.2 = .error error → error.code = .kIoFailure := by
    intro left
    induction left with
    | zero => exact fun number walk => Always.pure fun _ same => nomatch same
    | succ left ih =>
        intro number walk
        refine Always.bind (stepRecord_ends table number) fun came ends => ?_
        cases came with
        | error met => exact Always.pure fun error same => ends error (Except.error.inj same ▸ rfl)
        | ok report => exact ih _ _
  exact from_ _ _ _

theorem statsOf_ends {reports scanned : Nat} {nonConforming : Bool} {outcome : Result Unit}
    (ends : ∀ error, outcome = .error error → error.code = .kIoFailure) :
    ¬ EndsLost (MountedVolume.statsOf reports scanned nonConforming outcome) := by
  cases outcome with
  | ok done => exact not_endsLost_ok _
  | error error => exact fun lost => nomatch (ends error rfl).symm.trans (endsLost_error.mp lost)

/-- No walk of a mounted volume ends with the loss of the source. -/
theorem enumerate_not_endsLost (volume : MountedVolume) :
    Always volume.enumerate fun walked => ¬ EndsLost walked.outcome := by
  cases volume with
  | ntfs table =>
      exact Always.bind (enumerateEntries_ends table) fun walked ends => Always.pure (statsOf_ends ends)
  | exfat chain rootCluster =>
      have ends : Always (Exfat.walkVolume chain rootCluster) fun walked =>
          ∀ error, walked.outcome = .error error → error.code = .kIoFailure := by
        refine Always.bind Always.trivial fun bitmap _ => ?_
        exact Always.bind (DirectoryTree.walkTree_ends _ _) fun walked ends => Always.pure ends
      exact Always.bind ends fun walked ends => Always.pure (statsOf_ends ends)
  | fat32 chain rootCluster nonConforming =>
      exact Always.bind (DirectoryTree.walkTree_ends _ _) fun walked ends =>
        Always.pure (statsOf_ends ends)
  | ext4 blocks =>
      refine Always.bind Always.trivial fun journal _ => ?_
      have ends : Always (Ext4.walkVolume blocks journal) fun walked =>
          ∀ error, walked.outcome = .error error → error.code = .kIoFailure := by
        refine Always.bind (DirectoryTree.walkTree_ends _ _) fun walked ends => ?_
        obtain ⟨walk, outcome⟩ := walked
        cases outcome with
        | error met => exact Always.pure ends
        | ok done =>
            refine Always.bind Always.trivial fun numbers _ => ?_
            exact Always.bind Always.trivial fun orphans _ => Always.pure fun _ same => nomatch same
      exact Always.bind ends fun walked ends => Always.pure (statsOf_ends ends)

end Walking

namespace HybridRecovery

section Carving

variable {Log : Type*} (recorders : Recorders Log)
  (scan : ScanRegion → List CarveMatches.Report × Result ScanStats)

/-- The carve pass gets to `region`: what comes before it scans, and the recorders
carry on. -/
inductive GetsTo (region : ScanRegion) : List ScanRegion → Log → Prop
  | here (rest : List ScanRegion) (log : Log) : GetsTo region (region :: rest) log
  | later {first : ScanRegion} {rest : List ScanRegion} {log : Log} {stats : ScanStats}
      (scanned : (scan first).2 = .ok stats)
      (carriesOn : (recorders.onScanned (ScanRegions.endOf first)
        (logged recorders (scan first).1 log)).1 = true)
      (gets : GetsTo region rest (recorders.onScanned (ScanRegions.endOf first)
        (logged recorders (scan first).1 log)).2) : GetsTo region (first :: rest) log

variable {recorders scan}

theorem scanRegionsFrom_eq_error_iff {regions : List ScanRegion} {totals : ScanTotals} {log : Log}
    {error : Error} :
    (scanRegionsFrom recorders scan regions totals log).2 = .error error ↔
      ∃ region, GetsTo recorders scan region regions log ∧ (scan region).2 = .error error := by
  induction regions generalizing totals log with
  | nil =>
      constructor
      · exact fun impossible => nomatch impossible
      · rintro ⟨region, gets, -⟩
        cases gets
  | cons first rest ih =>
      cases scanned : (scan first).2 with
      | error met =>
          rw [scanRegionsFrom_failed scanned]
          constructor
          · rintro ⟨⟩
            exact ⟨first, .here rest log, scanned⟩
          · rintro ⟨region, gets, failed⟩
            cases gets with
            | here => exact congrArg _ (Except.error.inj (scanned.symm.trans failed))
            | later other => exact nomatch scanned.symm.trans other
      | ok stats =>
          rw [scanRegionsFrom_scanned scanned]
          dsimp only
          split
          case isTrue carriesOn =>
              rw [ih]
              constructor
              · rintro ⟨region, gets, failed⟩
                exact ⟨region, .later scanned carriesOn gets, failed⟩
              · rintro ⟨region, gets, failed⟩
                cases gets with
                | here => exact nomatch scanned.symm.trans failed
                | later _ _ gets => exact ⟨region, gets, failed⟩
          case isFalse stops =>
              constructor
              · exact fun impossible => nomatch impossible
              · rintro ⟨region, gets, failed⟩
                cases gets with
                | here => exact nomatch scanned.symm.trans failed
                | later _ carriesOn => exact absurd carriesOn stops

end Carving

section Runs

variable {Log : Type*} (recorders : Recorders Log) (plan : RecoveryPlan)
  (scan : ScanRegion → List CarveMatches.Report × Result ScanStats) (deviceSize : Nat) (walk : Walk)
  (log : Log)

variable {plan walk} in
theorem passOf_endsLost_iff (reads : plan.mode ≠ .kCarveOnly) :
    EndsLost (passOf plan.mode walk) ↔ EndsLost walk.outcome := by
  rw [passOf, if_neg reads, walkScope]
  cases walk.outcome with
  | ok stats => simp
  | error error =>
      dsimp only
      rw [mountFailure, endsLost_error]
      split
      case isTrue => exact endsLost_error
      case isFalse kept =>
          constructor
          · exact fun lost => absurd lost (not_endsLost_ok noPass)
          · exact fun lost => absurd (.inr lost) kept

/-- The carve pass that follows gets to a region whose scan meets the loss. -/
def CarveMeetsLoss : Prop :=
  ∃ pass region, passOf plan.mode walk = .ok pass ∧
    GetsTo recorders scan region (carveRegions plan pass deviceSize)
      (runFilesystemPass recorders plan walk log).1 ∧ EndsLost (scan region).2

/-- A run ends with the loss its filesystem pass ends with or its carve pass
meets. -/
theorem run_endsLost_iff :
    EndsLost (run recorders plan scan deviceSize walk log).2 ↔
      EndsLost (passOf plan.mode walk) ∨ CarveMeetsLoss recorders plan scan deviceSize walk log := by
  have same := runFilesystemPass_snd recorders plan walk log
  unfold run CarveMeetsLoss
  rcases passed : runFilesystemPass recorders plan walk log with ⟨after, outcome⟩
  rw [passed] at same
  obtain rfl : outcome = passOf plan.mode walk := same
  cases passOf plan.mode walk with
  | error error =>
      dsimp only
      rw [endsLost_error, endsLost_error]
      constructor
      · exact fun lost => .inl lost
      · rintro (lost | ⟨pass, region, impossible, -⟩)
        · exact lost
        · cases impossible
  | ok pass =>
      have ends : ∀ error,
          ((scanRegions recorders scan (carveRegions plan pass deviceSize) after).2.map
            (statsOf pass)) = .error error ↔
          ∃ region, GetsTo recorders scan region (carveRegions plan pass deviceSize) after ∧
            (scan region).2 = .error error := by
        intro error
        rw [← scanRegionsFrom_eq_error_iff, scanRegions]
        cases (scanRegionsFrom recorders scan (carveRegions plan pass deviceSize)
          ⟨0, 0, true, 0⟩ after).2 <;> simp [Except.map]
      constructor
      · rintro ⟨error, failed, lost⟩
        obtain ⟨region, gets, met⟩ := (ends error).mp failed
        exact .inr ⟨pass, region, rfl, gets, error, met, lost⟩
      · rintro (impossible | ⟨other, region, found, gets, error, met, lost⟩)
        · exact absurd impossible (not_endsLost_ok pass)
        · cases found
          exact ⟨error, (ends error).mpr ⟨region, gets, met⟩, lost⟩

end Runs

end HybridRecovery

section Passes

variable (source : Source) (layout : List Partition)

/-- The answers the reads of the filesystem pass get. -/
def passAnswers (mode : RecoveryMode) : ReadLog :=
  if mode = .kCarveOnly then [] else (walkLayout source layout []).2

/-- The loss comes where nothing hands it on: in the walk of a volume that has
mounted, or anywhere in the pass over the partitions of a disk. -/
def LostBehindMount : Prop :=
  if layout.isEmpty then
    ∃ volume mounting, mountVolume source [] = (.ok volume, mounting) ∧
      HeardLoss (volume.enumerate mounting).2
  else HeardLoss (enumerateDisk source layout []).2

variable {source layout}

theorem walkLayout_volume :
    walkLayout source [] [] =
      match mountVolume source [] with
      | (.error error, mounting) => (⟨[], .error error⟩, mounting)
      | (.ok volume, mounting) =>
          (⟨(volume.enumerate mounting).1.reports.map VolumeReport.entry,
            (volume.enumerate mounting).1.outcome⟩, (volume.enumerate mounting).2) := by
  show (((enumerateVolume source) >>= fun walked : VolumeWalk =>
    (pure ⟨walked.reports.map VolumeReport.entry, walked.outcome⟩ : Reading Walk)) []) = _
  simp only [enumerateVolume, Bind.bind, StateT.bind, ExceptT.run]
  rcases mountVolume source [] with ⟨outcome, mounting⟩
  cases outcome <;> rfl

theorem LostBehindMount.heard (behind : LostBehindMount source layout) :
    HeardLoss (walkLayout source layout []).2 := by
  cases layout with
  | cons partition partitions => exact behind
  | nil =>
      obtain ⟨volume, mounting, mounted, heard⟩ := behind
      rw [walkLayout_volume, mounted]
      exact heard

/-- The pass ends with the loss exactly when a single volume met it in its
mount. -/
theorem walkLayout_endsLost_iff (heard : HeardLoss (walkLayout source layout []).2) :
    EndsLost (walkLayout source layout []).1.outcome ↔ ¬ LostBehindMount source layout := by
  cases layout with
  | cons partition partitions =>
      constructor
      · exact fun lost => absurd lost (not_endsLost_ok _)
      · exact fun handed => absurd heard handed
  | nil =>
      obtain ⟨answers, mounted, relayed⟩ := mountVolume_relays source []
      rw [List.append_nil] at mounted
      rw [walkLayout_volume] at heard ⊢
      unfold LostBehindMount
      rw [if_pos List.isEmpty_nil]
      rcases told : mountVolume source [] with ⟨outcome, mounting⟩
      rw [told] at heard mounted relayed
      obtain rfl : mounting = answers := mounted
      cases outcome with
      | ok volume =>
          constructor
          · exact fun lost => absurd lost (enumerate_not_endsLost volume mounting)
          · exact fun handed => absurd ⟨volume, mounting, rfl, heard⟩ handed
      | error error =>
          constructor
          · rintro - ⟨volume, mounting, impossible, -⟩
            cases impossible
          · intro _
            obtain ⟨other, answered, lost⟩ := heard
            obtain rfl : error = other := Except.error.inj (relayed other answered lost)
            exact endsLost_error.mpr lost

end Passes

section Runs

variable {Log : Type*} (recorders : Recorders Log) (plan : RecoveryPlan)
  (scan : ScanRegion → List CarveMatches.Report × Result ScanStats) (source : Source)
  (layout : List Partition) (deviceSize : Nat) (log : Log)

/-- A loss heard in the filesystem pass is what the run ends with. -/
def LossReported : Prop :=
  HeardLoss (passAnswers source layout plan.mode) →
    EndsLost
      (HybridRecovery.run recorders plan scan deviceSize (walkLayout source layout []).1 log).2

end Runs

/-- A disk that has gone away since its partitions were read. -/
def goneDisk : BlockDevice where
  sizeInBytes := 2 ^ 20
  sectorSize := 512
  readAt offset _ := .error { code := .kSourceLost, offset := offset }

def onlyPartition : Partition := ⟨32768, 65536, 1, []⟩

/-- Recorders that keep nothing and never stop a run. -/
def heedless : Recorders Unit where
  onEntry _ log := log
  onCandidate _ log := log
  onScanned _ log := (true, log)

end Revenant
