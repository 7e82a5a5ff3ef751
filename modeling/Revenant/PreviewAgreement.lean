import Revenant.RecoverySink

/-!
# What a preview promises

A preview claims names as an extraction does and stops there.  Over an image
without errors and a destination with room the two agree exactly when every name
claimed is still a path, no path is in another's way, and every extent is on the
image: only the extraction finds out about these.
-/

namespace Revenant
namespace RecoverySink

open OutputPath ExtractFile

variable (contained : OutputPath → Bool)

section Records

variable {State : Type} (reader : Reader State)

/-- The record a turn of an extraction leaves. -/
def recordOf (winner : Candidate) (written : Result WrittenFile) (sink : RecoverySink State) :
    ArtifactRecord :=
  match written with
  | .error _ => recordFor winner .kFailed
  | .ok file =>
      if sink.isDuplicate winner file then recordFor winner .kDeduplicated
      else writtenRecord winner file

theorem writeOne_artifacts (medium : Medium) (item : Ordered) (sink : RecoverySink State) :
    (writeOne contained reader medium item sink).artifacts =
      sink.artifacts ++ [recordOf item.winner (write contained reader medium item sink).1 sink] := by
  cases wrote : (write contained reader medium item sink).1 with
  | error failure =>
      rw [writeOne_error contained reader wrote]
      split <;> simp [fail, recordOf]
  | ok file =>
      have same : isDuplicate item.winner file (write contained reader medium item sink).2 =
          isDuplicate item.winner file sink := by
        simp [isDuplicate]
      rw [writeOne_ok contained reader wrote, recordOf, same]
      split <;> simp [drop, keep]

/-- The outcome of every write of a run, in order. -/
def attempts (media : Nat → Medium) : List Ordered → RecoverySink State → List (Result WrittenFile)
  | [], _ => []
  | item :: items, sink =>
      (write contained reader (media 0) item sink).1 ::
        if (writeOne contained reader (media 0) item sink).stoppedBy.isSome then []
        else attempts (fun turn => media (turn + 1)) items
          (writeOne contained reader (media 0) item sink)

/-- The records a run adds. -/
def recordsOf (media : Nat → Medium) : List Ordered → RecoverySink State → List ArtifactRecord
  | [], _ => []
  | item :: items, sink =>
      recordOf item.winner (write contained reader (media 0) item sink).1 sink ::
        if (writeOne contained reader (media 0) item sink).stoppedBy.isSome then
          items.map fun item => recordFor item.winner .kNotAttempted
        else recordsOf (fun turn => media (turn + 1)) items
          (writeOne contained reader (media 0) item sink)

theorem writeEach_artifacts (media : Nat → Medium) (items : List Ordered)
    (sink : RecoverySink State) :
    (writeEach contained reader media items sink).artifacts =
      sink.artifacts ++ recordsOf contained reader media items sink := by
  induction items generalizing sink media with
  | nil => simp [writeEach, recordsOf]
  | cons item items ih =>
      rw [writeEach, recordsOf]
      split
      · simp [recordNotAttempted, writeOne_artifacts]
      · rw [ih, writeOne_artifacts, List.append_assoc, List.singleton_append]

/-- The record a preview leaves. -/
def previewRecord (used : List Bytes) (item : Ordered) : ArtifactRecord :=
  match claimedName contained used item with
  | none => recordFor item.winner .kFailed
  | some claimed => { recordFor item.winner .kPreviewed with writtenName := claimed }

def previewRecords : (used : List Bytes) → List Ordered → List ArtifactRecord
  | _, [] => []
  | used, item :: items =>
      previewRecord contained used item :: previewRecords (claims contained used item) items

theorem previewOne_eq (item : Ordered) (sink : RecoverySink State) :
    (previewOne contained item sink).artifacts =
        sink.artifacts ++ [previewRecord contained sink.used item] ∧
      (previewOne contained item sink).used = claims contained sink.used item := by
  have first := claimName_fst contained item sink
  obtain ⟨renamed, second⟩ := claimName_snd contained item sink
  rcases pair : claimName contained item sink with ⟨claimed | claimed, after⟩ <;>
    simp only [pair] at first second <;>
      simp [previewOne, pair, previewRecord, ← first, second, fail]

theorem foldl_previewOne_artifacts (items : List Ordered) (sink : RecoverySink State) :
    (items.foldl (fun sink item => previewOne contained item sink) sink).artifacts =
      sink.artifacts ++ previewRecords contained sink.used items := by
  induction items generalizing sink with
  | nil => simp [previewRecords]
  | cons item items ih =>
      obtain ⟨artifacts, used⟩ := previewOne_eq contained item sink
      rw [List.foldl_cons, ih, artifacts, used, previewRecords, List.append_assoc,
        List.singleton_append]

end Records

section Deliverable

variable (image : Image) (start : Destination)

/-- Neither path is a directory the other needs. -/
def Apart (target other : OutputPath) : Prop :=
  target ∉ Destination.parents other ∧ other ∉ Destination.parents target

/-- Every winner whose proposed name is usable can also be delivered: the name it
is given is a path, nothing in the destination and no path given before is in its
way, and its extents are on the image. -/
def Deliverable : (used : List Bytes) → (opened : List OutputPath) → List Ordered → Prop
  | _, _, [] => True
  | used, opened, item :: items =>
      match claimedName contained used item with
      | none => Deliverable used opened items
      | some claimed => ∃ target, sanitizeOutputPath contained claimed = .ok target ∧
          start.obstructed target = false ∧ (∀ other ∈ opened, Apart target other) ∧
            (∀ extent ∈ item.winner.extents, Inside image extent) ∧
              Deliverable (claimed :: used) (target :: opened) items

/-- What the destination holds after the files at `opened`: their directories,
and themselves but for carved duplicates, which leave only once nothing but
carved winners is left. -/
structure Ground (opened : List OutputPath) (items : List Ordered) (destination : Destination) :
    Prop where
  directories : ∀ path, path ∈ destination.directories ↔
    path ∈ start.directories ∨ ∃ other ∈ opened, path ∈ Destination.parents other
  files : ∀ path, (destination.files path).isSome = true →
    path ∈ opened ∨ (start.files path).isSome = true
  kept : ∀ path, path ∈ opened ∨ (start.files path).isSome = true →
    (destination.files path).isSome = true ∨
      path.length = 3 ∧ ∀ item ∈ items, item.winner.source = .kCarve

theorem ground_start (items : List Ordered) : Ground start [] items start := by
  refine ⟨fun path => ?_, fun path held => .inr held, fun path held => .inl ?_⟩
  · simp
  · exact held.resolve_left List.not_mem_nil

variable {start}

theorem Ground.tail {opened : List OutputPath} {item : Ordered} {items : List Ordered}
    {destination : Destination} (ground : Ground start opened (item :: items) destination) :
    Ground start opened items destination :=
  ⟨ground.directories, ground.files, fun path held => (ground.kept path held).imp_right
    fun carved => ⟨carved.1, fun later member => carved.2 later (List.mem_cons_of_mem _ member)⟩⟩

/-- A carved path has three segments. -/
theorem length_of_carve {used : List Bytes} {item : Ordered} {claimed : Bytes} {target : OutputPath}
    (carved : item.winner.source = .kCarve)
    (named : claimedName contained used item = some claimed)
    (safe : sanitizeOutputPath contained claimed = .ok target) : target.length = 3 := by
  unfold claimedName outputNameFor at named
  simp only [carved, reduceCtorEq, if_false] at named
  split at named
  · cases named
  · cases named
    exact length_carvedPath safe

/-- On such ground a path is obstructed by what was there before and by the paths
opened since, and by nothing else. -/
theorem Ground.obstructed_iff {opened : List OutputPath} {item : Ordered} {items : List Ordered}
    {destination : Destination} (ground : Ground start opened (item :: items) destination)
    {used : List Bytes} {claimed : Bytes} {target : OutputPath}
    (named : claimedName contained used item = some claimed)
    (safe : sanitizeOutputPath contained claimed = .ok target) :
    destination.obstructed target = false ↔
      start.obstructed target = false ∧ ∀ other ∈ opened, Apart target other := by
  -- A parent of the target is shorter, so it is not a carved duplicate that has gone.
  have stays {path : OutputPath} (parent : path ∈ Destination.parents target)
      (held : path ∈ opened ∨ (start.files path).isSome = true) :
      (destination.files path).isSome = true := by
    rcases ground.kept path held with here | ⟨length, carved⟩
    · exact here
    · have three := length_of_carve contained (carved item List.mem_cons_self) named safe
      obtain ⟨below, proper⟩ := Destination.mem_parents.mp parent
      exact absurd (below.eq_of_length (length.trans three.symm)) proper
  simp only [Destination.obstructed, Bool.or_eq_false_iff, decide_eq_false_iff_not,
    List.any_eq_false, Apart, ground.directories]
  constructor
  · rintro ⟨noDirectory, noFile⟩
    refine ⟨⟨fun member => noDirectory (.inl member), fun parent member => ?_⟩, fun other member =>
      ⟨fun inside => noDirectory (.inr ⟨other, member, inside⟩), fun parent => ?_⟩⟩
    · exact fun there => noFile parent member (stays member (.inr there))
    · exact noFile other parent (stays parent (.inl member))
  · rintro ⟨⟨noDirectory, noFile⟩, apart⟩
    refine ⟨?_, fun parent member there => ?_⟩
    · rintro (member | ⟨other, member, inside⟩)
      · exact noDirectory member
      · exact (apart other member).1 inside
    · rcases ground.files parent there with member' | before
      · exact (apart parent member').2 member
      · exact noFile parent member before

theorem Ground.hold {opened : List OutputPath} {item : Ordered} {items : List Ordered}
    {destination : Destination} (ground : Ground start opened (item :: items) destination)
    (target : OutputPath) (content : Bytes) :
    Ground start (target :: opened) items (destination.hold target content) := by
  refine ⟨fun path => ?_, fun path held => ?_, fun path held => ?_⟩
  · simp only [Destination.hold, List.mem_append, ground.directories, List.mem_cons,
      exists_eq_or_imp]
    tauto
  · by_cases same : path = target
    · exact .inl (same ▸ List.mem_cons_self)
    · rw [Destination.files_hold_of_ne _ _ same] at held
      exact (ground.files path held).imp_left (List.mem_cons_of_mem _)
  · by_cases same : path = target
    · subst same
      simp
    · rw [Destination.files_hold_of_ne _ _ same]
      exact ground.tail.kept path (held.imp_left fun member =>
        (List.mem_cons.mp member).resolve_left same)

theorem Ground.remove {opened : List OutputPath} {items : List Ordered} {destination : Destination}
    {target : OutputPath} (ground : Ground start (target :: opened) items destination)
    (three : target.length = 3) (carved : ∀ item ∈ items, item.winner.source = .kCarve) :
    Ground start (target :: opened) items (destination.remove target) := by
  refine ⟨ground.directories, fun path held => ?_, fun path held => ?_⟩
  · by_cases same : path = target
    · exact .inl (same ▸ List.mem_cons_self)
    · rw [Destination.files_remove_of_ne _ same] at held
      exact ground.files path held
  · by_cases same : path = target
    · exact .inr ⟨same ▸ three, carved⟩
    · rw [Destination.files_remove_of_ne _ same]
      exact ground.kept path held

variable {image}

/-- On an image, with room, a claimed path is written exactly when nothing is in
its way and the image holds the extents. -/
theorem write_image_iff {item : Ordered} {sink : RecoverySink Unit} {claimed : Bytes}
    {target : OutputPath} (named : claimedName contained sink.used item = some claimed)
    (safe : sanitizeOutputPath contained claimed = .ok target) :
    (∃ file, (write contained (imageReader image) accepting item sink).1 = .ok file) ↔
      sink.destination.obstructed target = false ∧
        ∀ extent ∈ item.winner.extents, Inside image extent := by
  obtain ⟨renamed, claimedSink⟩ := claimName_snd contained item sink
  rcases write_cases contained (imageReader image) accepting item sink with
    ⟨rejected, _⟩ | ⟨claimed', target', named', safe', wrote⟩
  · exact absurd safe (rejected claimed target named)
  obtain rfl : claimed' = claimed := Option.some.inj (named'.symm.trans named)
  obtain rfl : target' = target := Except.ok.inj (safe'.symm.trans safe)
  have mapped (result : Result ExtractedFile) (name : Bytes) (path : OutputPath) :
      (∃ file, (result.map fun extracted =>
        (⟨name, path, extracted.bytes, extracted.content⟩ : WrittenFile)) = .ok file) ↔
          ∃ extracted, result = .ok extracted := by
    cases result <;> simp [Except.map]
  rw [wrote, claimedSink, writeTo, mapped]
  cases blocked : sink.destination.obstructed target' with
  | true =>
      constructor
      · rintro ⟨extracted, written⟩
        simp [extractTo, Destination.mediumFor, blocked] at written
      · rintro ⟨clear, _⟩
        cases clear
  | false =>
      rw [extractTo_image_iff (by simp [Destination.mediumFor, accepting, blocked]) rfl]
      simp

/-- A winner without a usable name touches nothing. -/
theorem writeOne_unnamed (image : Image) {item : Ordered} {sink : RecoverySink Unit}
    (unnamed : claimedName contained sink.used item = none) :
    (writeOne contained (imageReader image) accepting item sink).destination = sink.destination := by
  obtain ⟨renamed, claimedSink⟩ := claimName_snd contained item sink
  rcases write_cases contained (imageReader image) accepting item sink with
    ⟨_, rejected⟩ | ⟨claimed, _, named, _, _⟩
  · have wrote : (write contained (imageReader image) accepting item sink).1 = .error unusable := by
      rw [rejected]
    rw [writeOne_error contained _ wrote, rejected, claimedSink]
    rfl
  · rw [unnamed] at named
    cases named

variable (image) in
theorem writeOne_image_going (item : Ordered) {sink : RecoverySink Unit}
    (going : sink.stoppedBy = none) :
    (writeOne contained (imageReader image) accepting item sink).stoppedBy = none := by
  cases wrote : (write contained (imageReader image) accepting item sink).1 with
  | ok file =>
      rw [writeOne_ok contained _ wrote]
      split <;> simp [drop, keep, going]
  | error failure =>
      have goesOn : endsTheRun failure.code = false := by
        rcases write_cases contained (imageReader image) accepting item sink with
          ⟨_, rejected⟩ | ⟨claimed, target, _, _, wroteTo⟩
        · rw [rejected] at wrote
          cases wrote
          rfl
        · rw [wroteTo, writeTo] at wrote
          cases extracted : (extractTo (imageReader image)
              ((claimName contained item sink).2.destination.mediumFor target accepting)
              item.winner (claimName contained item sink).2.device).result with
          | ok file => simp [extracted, Except.map] at wrote
          | error earlier =>
              simp only [extracted, Except.map, Except.error.injEq] at wrote
              subst wrote
              rcases extractTo_error (imageReader image) extracted with refused | copy
              · rw [refused]
                rfl
              · rcases copyError_image copy with code | code <;> rw [code] <;> rfl
      rw [writeOne_error contained _ wrote, goesOn]
      simp [fail, going]

/-- The ground a written file leaves for the winners behind it. -/
theorem Ground.writeOne {opened : List OutputPath} {item : Ordered} {items : List Ordered}
    {sink : RecoverySink Unit} (ground : Ground start opened (item :: items) sink.destination)
    {file : WrittenFile} (carved : item.winner.source = .kCarve →
      ∀ later ∈ items, later.winner.source = .kCarve)
    (wrote : (write contained (imageReader image) accepting item sink).1 = .ok file) :
    Ground start (file.target :: opened) items
      (writeOne contained (imageReader image) accepting item sink).destination := by
  obtain ⟨named, safe, content, held, _⟩ := write_ok contained _ wrote
  have holds := ground.hold file.target content
  rw [writeOne_ok contained _ wrote]
  split
  case isTrue duplicate =>
    have isCarved : item.winner.source = .kCarve := by
      simp only [isDuplicate, Bool.and_eq_true, decide_eq_true_eq] at duplicate
      exact duplicate.1
    simp only [drop, accepting, if_true]
    change Ground start _ _ ((write contained (imageReader image) accepting item sink).2.destination.remove
      file.target)
    rw [held]
    exact holds.remove (length_of_carve contained isCarved named safe) (carved isCarved)
  case isFalse =>
    rw [RecoverySink.keep, held]
    exact holds

end Deliverable

section Agreement

variable (image : Image)

/-- One side reports a failure exactly when the other does. -/
def SameFailure (shown done : ArtifactRecord) : Prop :=
  shown.outcome = .kFailed ↔ done.outcome = .kFailed

theorem sameFailure_outcomes {shown done : List ArtifactRecord}
    (same : List.Forall₂ SameFailure shown done) :
    List.Forall₂ (fun first second : ArtifactOutcome => first = .kFailed ↔ second = .kFailed)
      (shown.map fun artifact => artifact.outcome) (done.map fun artifact => artifact.outcome) := by
  rw [List.forall₂_map_left_iff, List.forall₂_map_right_iff]
  exact same

theorem recordOf_failed_iff {State : Type} (winner : Candidate) (written : Result WrittenFile)
    (sink : RecoverySink State) :
    (recordOf winner written sink).outcome = .kFailed ↔ ¬ ∃ file, written = .ok file := by
  cases written with
  | error failure => simp [recordOf, recordFor]
  | ok file =>
      simp only [recordOf]
      split <;> simp [recordFor, writtenRecord]

variable {start : Destination}

/-- The two list the same failures exactly when everything named is deliverable. -/
theorem sameFailures_iff (media : Nat → Medium) (room : ∀ turn, media turn = accepting)
    {items : List Ordered} {opened : List OutputPath} (sink : RecoverySink Unit)
    (order : items.Pairwise fun first second =>
      first.winner.source = .kCarve → second.winner.source = .kCarve)
    (going : sink.stoppedBy = none) (ground : Ground start opened items sink.destination) :
    List.Forall₂ SameFailure (previewRecords contained sink.used items)
        (recordsOf contained (imageReader image) media items sink) ↔
      Deliverable contained image start sink.used opened items := by
  induction items generalizing sink opened media with
  | nil => simp [previewRecords, recordsOf, Deliverable]
  | cons item items ih =>
      obtain ⟨carvedBehind, orderBehind⟩ := List.pairwise_cons.mp order
      have next := writeOne_image_going contained image item going
      rw [previewRecords, recordsOf, Deliverable, room 0, List.forall₂_cons, next]
      simp only [Option.isSome_none, Bool.false_eq_true, if_false, SameFailure, recordOf_failed_iff]
      have later (openedNow : List OutputPath) (groundNow : Ground start openedNow items
          (writeOne contained (imageReader image) accepting item sink).destination) :=
        ih (fun turn => media (turn + 1)) (fun turn => room (turn + 1)) _ orderBehind next groundNow
      simp only [writeOne_used] at later
      cases named : claimedName contained sink.used item with
      | none =>
          have failed : ¬ ∃ file,
              (write contained (imageReader image) accepting item sink).1 = .ok file := by
            rintro ⟨file, wrote⟩
            rw [(write_ok contained _ wrote).1] at named
            cases named
          have untouched : (writeOne contained (imageReader image) accepting item sink).destination =
              sink.destination := writeOne_unnamed contained image named
          have same := later opened (untouched ▸ ground.tail)
          simp only [claims, named, Option.elim_none] at same ⊢
          simp only [previewRecord, named, recordFor, failed, not_false_eq_true, true_and]
          exact same
      | some claimed =>
          have shown : (previewRecord contained sink.used item).outcome ≠ .kFailed := by
            simp [previewRecord, named, recordFor]
          simp only [shown, false_iff, not_not, claims, named, Option.elim_some] at later ⊢
          constructor
          · rintro ⟨⟨file, wrote⟩, rest⟩
            obtain ⟨fileNamed, safe, _⟩ := write_ok contained _ wrote
            obtain rfl : claimed = file.name := Option.some.inj (named.symm.trans fileNamed)
            obtain ⟨clear, inside⟩ := (write_image_iff contained named safe).mp ⟨file, wrote⟩
            obtain ⟨startClear, apart⟩ := (ground.obstructed_iff contained named safe).mp clear
            exact ⟨file.target, safe, startClear, apart, inside,
              (later _ (ground.writeOne contained (fun carved later member =>
                carvedBehind later member carved) wrote)).mp rest⟩
          · rintro ⟨target, safe, startClear, apart, inside, rest⟩
            obtain ⟨file, wrote⟩ := (write_image_iff contained named safe).mpr
              ⟨(ground.obstructed_iff contained named safe).mpr ⟨startClear, apart⟩, inside⟩
            obtain ⟨fileNamed, fileSafe, _⟩ := write_ok contained _ wrote
            obtain rfl : claimed = file.name := Option.some.inj (named.symm.trans fileNamed)
            obtain rfl : target = file.target := Except.ok.inj (safe.symm.trans fileSafe)
            exact ⟨⟨file, wrote⟩, (later _ (ground.writeOne contained (fun carved later member =>
              carvedBehind later member carved) wrote)).mpr rest⟩

/-- The extraction goes to the paths the preview named. -/
theorem samePaths (media : Nat → Medium) (room : ∀ turn, media turn = accepting)
    (items : List Ordered) (sink : RecoverySink Unit) (going : sink.stoppedBy = none) :
    List.Forall₂
      (fun shown attempt => ∀ file : WrittenFile, attempt = .ok file →
        shown.writtenName = file.name ∧
          sanitizeOutputPath contained shown.writtenName = .ok file.target)
      (previewRecords contained sink.used items)
      (attempts contained (imageReader image) media items sink) := by
  induction items generalizing sink media with
  | nil => exact .nil
  | cons item items ih =>
      have next := writeOne_image_going contained image item going
      have rest := ih (fun turn => media (turn + 1)) (fun turn => room (turn + 1)) _ next
      rw [writeOne_used] at rest
      rw [previewRecords, attempts, room 0, next]
      refine .cons (fun file wrote => ?_) rest
      obtain ⟨named, safe, _⟩ := write_ok contained _ wrote
      simp only [previewRecord, named]
      exact ⟨trivial, safe⟩

/-- The preview of a run over an image: the same winners fail, and the others go
to the paths it names. -/
structure Predicts (winners : List Candidate) (destination : Destination) : Prop where
  failing : List.Forall₂ SameFailure (preview contained winners destination ()).artifacts
    (extract contained (imageReader image) (fun _ => accepting) winners destination ()).artifacts
  paths : List.Forall₂
    (fun shown attempt => ∀ file : WrittenFile, attempt = .ok file →
      shown.writtenName = file.name ∧
        sanitizeOutputPath contained shown.writtenName = .ok file.target)
    (preview contained winners destination ()).artifacts
    (attempts contained (imageReader image) (fun _ => accepting) (orderedForWriting winners)
      (initial destination ()))

theorem orderedForWriting_pairwise (winners : List Candidate) :
    (orderedForWriting winners).Pairwise fun first second =>
      first.winner.source = .kCarve → second.winner.source = .kCarve := by
  have source {item : Ordered} {origin : CandidateSource} (member : item ∈ ofSource winners origin) :
      item.winner.source = origin := by
    obtain ⟨numbered, found, rfl⟩ := List.mem_map.mp member
    simpa using List.of_mem_filter found
  rw [orderedForWriting, List.pairwise_append]
  refine ⟨?_, ?_, ?_⟩
  · refine List.pairwise_of_forall_mem_list fun first member second _ carved => ?_
    rw [source member] at carved
    cases carved
  · exact List.pairwise_of_forall_mem_list fun first _ second member _ => source member
  · intro first _ second member _
    exact source member

/-- The longest name there is: a number makes it too long. -/
def longName : Bytes := List.replicate kMaxSegmentBytes 0x61

end Agreement

end RecoverySink
end Revenant
