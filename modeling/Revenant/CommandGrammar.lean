import Revenant.CommandLine

/-!
# A command line, flag by flag

A flag is stated with its value if it takes one.  Each is read by the reader its frontend's
table names for it, and nothing but such flags is read.
-/

namespace Revenant
namespace Cli

inductive PathField where
  | source
  | destination
  | session
deriving DecidableEq

/-- A flag as an operator states it. -/
inductive Item where
  | path (field : PathField) (value : Bytes)
  | dryRun
  | listPartitions
  | partition (text : Bytes)
  | forcePortable
  | allowUnverifiedDestination
  | formats (list : Bytes)
  | mode (mode : RecoveryMode)
deriving DecidableEq

inductive Frontend where
  | carve
  | undelete
deriving DecidableEq

section Items

def PathField.flag : PathField → Bytes
  | .source => ascii "--source"
  | .destination => ascii "--destination"
  | .session => ascii "--session"

def PathField.fill : PathField → OptionDraft → Bytes → OptionDraft
  | .source, draft, value => { draft with source := value }
  | .destination, draft, value => { draft with destination := value }
  | .session, draft, value => { draft with session := value }

def modeFlag : RecoveryMode → Bytes
  | .kHybrid => kHybridFlag
  | .kFilesystemOnly => kFilesystemOnlyFlag
  | .kCarveOnly => kCarveOnlyFlag

/-- What an item is written as. -/
def Item.text : Item → List Bytes
  | .path field value => [field.flag, value]
  | .dryRun => [ascii "--dry-run"]
  | .listPartitions => [ascii "--list-partitions"]
  | .partition text => [ascii "--partition", text]
  | .forcePortable => [ascii "--force-portable"]
  | .allowUnverifiedDestination => [ascii "--allow-unverified-destination"]
  | .formats list => [kFormatsFlag, list]
  | .mode chosen => [modeFlag chosen]

/-- What an item does to what was said before it, unless it is refused. -/
def Item.apply (draft : OptionDraft) : Item → Option OptionDraft
  | .path field value => some (field.fill draft value)
  | .dryRun => if draft.delivery.isSome then none else some { draft with delivery := some .kPreview }
  | .listPartitions =>
      if draft.action.isSome then none else some { draft with action := some .kListPartitions }
  | .partition text =>
      if draft.partition.isSome then none
      else (partitionNumberIn text).toOption.map fun number => { draft with partition := some number }
  | .forcePortable =>
      if draft.forcePortable.isSome then none else some { draft with forcePortable := some true }
  | .allowUnverifiedDestination =>
      if draft.allowUnverifiedDestination.isSome then none
      else some { draft with allowUnverifiedDestination := some true }
  | .formats list =>
      if draft.formats ≠ [] then none
      else (formatsIn list).map fun formats => { draft with formats := formats }
  | .mode chosen => if draft.mode.isSome then none else some { draft with mode := some chosen }

namespace Frontend

def flags : Frontend → List FlagDescriptor
  | .carve => carveFlags
  | .undelete => undeleteFlags

def defaultMode : Frontend → RecoveryMode
  | .carve => .kCarveOnly
  | .undelete => .kHybrid

def parse : Frontend → Arguments → Result RunRequest
  | .carve => parseCarveOptions
  | .undelete => parseUndeleteOptions

/-- What a frontend has flags for. -/
def Owns : Frontend → Item → Bool
  | .carve, .mode _ => false
  | .undelete, .formats _ => false
  | _, _ => true

theorem parse_eq (frontend : Frontend) (arguments : Arguments) :
    frontend.parse arguments =
      readRecoveryOptions arguments frontend.flags frontend.defaultMode := by
  cases frontend <;> rfl

end Frontend

end Items

section Grammar

/-- The reader a frontend's table names for an item's flag. -/
def Item.reader : Item → FlagReader
  | .path field _ => applyPath field.fill
  | .dryRun => applyDryRun
  | .listPartitions => applyListPartitions
  | .partition _ => applyPartition
  | .forcePortable => applyForcePortable
  | .allowUnverifiedDestination => applyAllowUnverifiedDestination
  | .formats _ => applyFormatsFlag
  | .mode _ => applyModeFlag

theorem flagNamed_item {frontend : Frontend} {item : Item} (owned : frontend.Owns item = true) :
    ((flagNamed frontend.flags (item.text.headD [])).bind FlagDescriptor.read) = some item.reader := by
  cases item with
  | path field value => cases frontend <;> cases field <;> rfl
  | mode chosen =>
      cases frontend with
      | carve => cases owned
      | undelete => cases chosen <;> rfl
  | formats list =>
      cases frontend with
      | carve => rfl
      | undelete => cases owned
  | _ => cases frontend <;> rfl

theorem partitionNumberIn_refused {text : Bytes} {error : Error}
    (refused : partitionNumberIn text = .error error) : error = usageError := by
  unfold partitionNumberIn at refused
  dsimp only at refused
  split at refused <;> cases refused
  rfl

/-- An item is read by what it does. -/
theorem reader_item (item : Item) (draft : OptionDraft) (rest : Arguments) :
    item.reader draft (item.text ++ rest) =
      match item.apply draft with
      | some after => .ok (after, rest)
      | none => .error usageError := by
  cases item with
  | path field value => rfl
  | dryRun =>
      simp only [Item.reader, Item.apply, applyDryRun, applyOnce]
      split <;> rfl
  | listPartitions =>
      simp only [Item.reader, Item.apply, applyListPartitions, applyOnce]
      split <;> rfl
  | forcePortable =>
      simp only [Item.reader, Item.apply, applyForcePortable, applyOnce]
      split <;> rfl
  | allowUnverifiedDestination =>
      simp only [Item.reader, Item.apply, applyAllowUnverifiedDestination, applyOnce]
      split <;> rfl
  | partition text =>
      simp only [Item.reader, Item.text, Item.apply, applyPartition]
      split
      case isTrue => rfl
      case isFalse =>
          change takePartition draft ⟨text, rest⟩ = _
          unfold takePartition
          cases read : partitionNumberIn text with
          | error error =>
              rw [partitionNumberIn_refused read]
              rfl
          | ok number => rfl
  | formats list =>
      simp only [Item.reader, Item.text, Item.apply, applyFormatsFlag]
      split
      case isTrue => rfl
      case isFalse =>
          change takeFormats draft ⟨list, rest⟩ = _
          unfold takeFormats
          cases formatsIn list <;> rfl
  | mode chosen =>
      have known : modeOf (modeFlag chosen) = some chosen := by cases chosen <;> rfl
      simp only [Item.reader, Item.text, Item.apply, applyModeFlag, List.cons_append, List.headD_cons, known]
      split <;> rfl

section Only

variable {draft after : OptionDraft} {flag : Bytes} {more rest : Arguments}

theorem valueAfterFlag_ok {taken : FlagValue} (read : valueAfterFlag (flag :: more) = .ok taken) :
    more = taken.value :: taken.rest := by
  cases more with
  | nil => cases read
  | cons value later =>
      cases read
      rfl

theorem applyPath_ok (field : PathField)
    (read : applyPath field.fill draft (field.flag :: more) = .ok (after, rest)) :
    ∃ value, field.flag :: more = (Item.path field value).text ++ rest ∧
      (Item.path field value).apply draft = some after := by
  simp only [applyPath, bind_eq_ok_iff, pure_eq_ok_iff, Prod.mk.injEq] at read
  obtain ⟨taken, value, rfl, rfl⟩ := read
  exact ⟨taken.value, congrArg _ (valueAfterFlag_ok value), rfl⟩

/-- A flag that may be stated once, when it is read. -/
theorem applyOnce_ok {item : Item} {stated : OptionDraft → Bool} {state : OptionDraft → OptionDraft}
    (reader : item.reader = applyOnce stated state) (text : item.text = [flag])
    (does : item.apply draft = if stated draft then none else some (state draft))
    (read : item.reader draft (item.text.headD [] :: more) = .ok (after, rest)) :
    item.text.headD [] :: more = item.text ++ rest ∧ item.apply draft = some after := by
  rw [reader, applyOnce] at read
  split at read <;> cases read
  rename_i unsaid
  rw [text, does, if_neg unsaid]
  exact ⟨rfl, rfl⟩

theorem applyPartition_ok
    (read : applyPartition draft (ascii "--partition" :: more) = .ok (after, rest)) :
    ∃ text, ascii "--partition" :: more = (Item.partition text).text ++ rest ∧
      (Item.partition text).apply draft = some after := by
  simp only [applyPartition, takePartition, reject_eq_ok_iff, bind_eq_ok_iff, pure_eq_ok_iff,
    Prod.mk.injEq] at read
  obtain ⟨unsaid, taken, value, number, known, rfl, rfl⟩ := read
  refine ⟨taken.value, congrArg _ (valueAfterFlag_ok value), ?_⟩
  simp only [Item.apply, if_neg unsaid, known]
  rfl

theorem applyFormatsFlag_ok
    (read : applyFormatsFlag draft (kFormatsFlag :: more) = .ok (after, rest)) :
    ∃ list, kFormatsFlag :: more = (Item.formats list).text ++ rest ∧
      (Item.formats list).apply draft = some after := by
  simp only [applyFormatsFlag, reject_eq_ok_iff, bind_eq_ok_iff] at read
  obtain ⟨unsaid, taken, value, named⟩ := read
  refine ⟨taken.value, ?_⟩
  unfold takeFormats at named
  split at named <;> cases named
  rename_i formats known
  refine ⟨congrArg _ (valueAfterFlag_ok value), ?_⟩
  simp only [Item.apply, if_neg unsaid, known]
  rfl

theorem applyModeFlag_ok (chosen : RecoveryMode)
    (read : applyModeFlag draft (modeFlag chosen :: more) = .ok (after, rest)) :
    modeFlag chosen :: more = (Item.mode chosen).text ++ rest ∧
      (Item.mode chosen).apply draft = some after := by
  have known : modeOf (modeFlag chosen) = some chosen := by cases chosen <;> rfl
  simp only [applyModeFlag, List.headD_cons, known] at read
  split at read <;> cases read
  rename_i unsaid
  exact ⟨rfl, if_neg unsaid⟩

/-- Every flag of the table that is read at all is that of an item the frontend has. -/
theorem item_of_flag {frontend : Frontend} {descriptor : FlagDescriptor} {reader : FlagReader}
    (listed : descriptor ∈ frontend.flags) (reads : descriptor.read = some reader) :
    ∃ item : Item, frontend.Owns item = true ∧ item.reader = reader ∧
      item.text.headD [] = descriptor.name := by
  have shared : descriptor ∈ sharedFlags → ∃ item : Item, frontend.Owns item = true ∧
      item.reader = reader ∧ item.text.headD [] = descriptor.name := by
    intro listed
    simp only [sharedFlags, List.mem_cons, List.not_mem_nil, or_false] at listed
    rcases listed with rfl | rfl | rfl | rfl | rfl | rfl | rfl | rfl | rfl <;> cases reads
    · exact ⟨.path .source [], by cases frontend <;> rfl, rfl, rfl⟩
    · exact ⟨.path .destination [], by cases frontend <;> rfl, rfl, rfl⟩
    · exact ⟨.path .session [], by cases frontend <;> rfl, rfl, rfl⟩
    · exact ⟨.dryRun, by cases frontend <;> rfl, rfl, rfl⟩
    · exact ⟨.listPartitions, by cases frontend <;> rfl, rfl, rfl⟩
    · exact ⟨.partition [], by cases frontend <;> rfl, rfl, rfl⟩
    · exact ⟨.forcePortable, by cases frontend <;> rfl, rfl, rfl⟩
    · exact ⟨.allowUnverifiedDestination, by cases frontend <;> rfl, rfl, rfl⟩
  cases frontend with
  | carve =>
      rcases List.mem_append.mp listed with common | own
      · exact shared common
      · cases List.mem_singleton.mp own
        cases reads
        exact ⟨.formats [], rfl, rfl, rfl⟩
  | undelete =>
      rcases List.mem_append.mp listed with common | own
      · exact shared common
      · simp only [List.mem_cons, List.not_mem_nil, or_false] at own
        rcases own with rfl | rfl | rfl <;> cases reads
        · exact ⟨.mode .kHybrid, rfl, rfl, rfl⟩
        · exact ⟨.mode .kFilesystemOnly, rfl, rfl, rfl⟩
        · exact ⟨.mode .kCarveOnly, rfl, rfl, rfl⟩

/-- One flag is refused, or read by the reader of an item that has it. -/
theorem readOne_cases (frontend : Frontend) (draft : OptionDraft) (argument : Bytes)
    (arguments : Arguments) :
    readOne draft (argument :: arguments) frontend.flags = .error usageError ∨
      ∃ item : Item, frontend.Owns item = true ∧ item.text.headD [] = argument ∧
        readOne draft (argument :: arguments) frontend.flags =
          item.reader draft (argument :: arguments) := by
  cases found : flagNamed frontend.flags argument with
  | none => exact .inl (by simp only [readOne, List.headD_cons, found])
  | some descriptor =>
      cases reads : descriptor.read with
      | none => exact .inl (by simp only [readOne, List.headD_cons, found, reads])
      | some reader =>
          have name : descriptor.name = argument := by simpa using List.find?_some found
          obtain ⟨item, owned, rfl, flag⟩ := item_of_flag (List.mem_of_find?_eq_some found) reads
          refine .inr ⟨item, owned, flag.trans name, ?_⟩
          simp only [readOne, List.headD_cons, found, reads]

/-- A flag that is read is that of an item the frontend has, and does what the item does. -/
theorem item_of_readOne {frontend : Frontend} {argument : Bytes} {arguments : Arguments}
    (read : readOne draft (argument :: arguments) frontend.flags = .ok (after, rest)) :
    ∃ item, frontend.Owns item = true ∧ argument :: arguments = item.text ++ rest ∧
      item.apply draft = some after := by
  rcases readOne_cases frontend draft argument arguments with refused | ⟨item, owned, rfl, same⟩
  · cases refused.symm.trans read
  · rw [same] at read
    cases item with
    | path field value =>
        obtain ⟨other, stands⟩ := applyPath_ok field read
        exact ⟨_, by cases frontend <;> rfl, stands⟩
    | partition text =>
        obtain ⟨other, stands⟩ := applyPartition_ok read
        exact ⟨_, by cases frontend <;> rfl, stands⟩
    | formats list =>
        obtain ⟨other, stands⟩ := applyFormatsFlag_ok read
        cases frontend with
        | carve => exact ⟨_, rfl, stands⟩
        | undelete => cases owned
    | mode chosen => exact ⟨_, owned, applyModeFlag_ok chosen read⟩
    | dryRun => exact ⟨.dryRun, owned, applyOnce_ok rfl rfl rfl read⟩
    | listPartitions => exact ⟨.listPartitions, owned, applyOnce_ok rfl rfl rfl read⟩
    | forcePortable => exact ⟨.forcePortable, owned, applyOnce_ok rfl rfl rfl read⟩
    | allowUnverifiedDestination => exact ⟨.allowUnverifiedDestination, owned, applyOnce_ok rfl rfl rfl read⟩

/-- A reader that refuses nothing but as a matter of usage. -/
def Refuses (reader : FlagReader) : Prop :=
  ∀ draft arguments error, reader draft arguments = .error error → error = usageError

theorem valueAfterFlag_refused {arguments : Arguments} {error : Error}
    (refused : valueAfterFlag arguments = .error error) : error = usageError := by
  unfold valueAfterFlag at refused
  split at refused <;> cases refused
  rfl

theorem refuses_applyPath (fill : OptionDraft → Bytes → OptionDraft) : Refuses (applyPath fill) := by
  intro draft arguments error refused
  unfold applyPath at refused
  cases taken : valueAfterFlag arguments with
  | error reason =>
      rw [taken] at refused
      cases refused
      exact valueAfterFlag_refused taken
  | ok value =>
      rw [taken] at refused
      cases refused

theorem refuses_applyOnce (stated : OptionDraft → Bool) (state : OptionDraft → OptionDraft) :
    Refuses (applyOnce stated state) := by
  intro draft arguments error refused
  unfold applyOnce at refused
  split at refused <;> cases refused
  rfl

theorem refuses_applyPartition : Refuses applyPartition := by
  intro draft arguments error refused
  unfold applyPartition takePartition at refused
  split at refused
  case isTrue =>
      cases refused
      rfl
  case isFalse =>
      cases taken : valueAfterFlag arguments with
      | error reason =>
          rw [taken] at refused
          cases refused
          exact valueAfterFlag_refused taken
      | ok value =>
          rw [taken] at refused
          cases number : partitionNumberIn value.value with
          | error reason =>
              simp only [bind, Except.bind, number] at refused
              cases refused
              exact partitionNumberIn_refused number
          | ok known =>
              simp only [bind, Except.bind, number] at refused
              cases refused

theorem refuses_applyFormatsFlag : Refuses applyFormatsFlag := by
  intro draft arguments error refused
  unfold applyFormatsFlag takeFormats at refused
  split at refused
  case isTrue =>
      cases refused
      rfl
  case isFalse =>
      cases taken : valueAfterFlag arguments with
      | error reason =>
          rw [taken] at refused
          cases refused
          exact valueAfterFlag_refused taken
      | ok value =>
          rw [taken] at refused
          cases known : formatsIn value.value with
          | none =>
              simp only [bind, Except.bind, known] at refused
              cases refused
              rfl
          | some formats =>
              simp only [bind, Except.bind, known] at refused
              cases refused

theorem refuses_applyModeFlag : Refuses applyModeFlag := by
  intro draft arguments error refused
  unfold applyModeFlag at refused
  split at refused
  case h_1 =>
      cases refused
      rfl
  case h_2 =>
      split at refused <;> cases refused
      rfl

theorem refuses_reader (item : Item) : Refuses item.reader := by
  cases item with
  | path field value => exact refuses_applyPath field.fill
  | partition text => exact refuses_applyPartition
  | formats list => exact refuses_applyFormatsFlag
  | mode chosen => exact refuses_applyModeFlag
  | _ => exact refuses_applyOnce _ _

/-- Whatever is refused is refused as a matter of usage. -/
theorem readOne_refused {frontend : Frontend} {argument : Bytes} {arguments : Arguments} {error : Error}
    (refused : readOne draft (argument :: arguments) frontend.flags = .error error) :
    error = usageError := by
  rcases readOne_cases frontend draft argument arguments with same | ⟨item, _, _, same⟩
  · exact (Except.error.inj (same.symm.trans refused)).symm
  · exact refuses_reader item draft _ error (same.symm.trans refused)

end Only

/-- A frontend's command lines as a grammar of items. -/
def Frontend.grammar (frontend : Frontend) : LoopRun.TokenGrammar Bytes OptionDraft Item Error where
  read draft arguments := readOne draft arguments frontend.flags
  Known item := frontend.Owns item = true
  text := Item.text
  apply := Item.apply
  refusal := usageError
  reads {item} owned draft rest := by
    have named := flagNamed_item owned
    have front : (item.text ++ rest).headD [] = item.text.headD [] := by cases item <;> rfl
    obtain ⟨flag, found, reader⟩ := Option.bind_eq_some_iff.mp named
    have same : readOne draft (item.text ++ rest) frontend.flags =
        item.reader draft (item.text ++ rest) := by
      rw [readOne, front, found]
      dsimp only
      rw [reader]
    rw [same, reader_item]
    cases item.apply draft <;> rfl
  only {draft arguments after rest} some_ read := by
    obtain ⟨argument, more, rfl⟩ := List.exists_cons_of_ne_nil some_
    exact item_of_readOne read
  long {item} _ := by cases item <;> exact List.cons_ne_nil _ _

theorem readRound_eq (frontend : Frontend) : readRound frontend.flags = frontend.grammar.round := by
  funext held
  obtain ⟨draft, _ | ⟨argument, arguments⟩⟩ := held
  · rfl
  · simp only [readRound, LoopRun.TokenGrammar.round, Frontend.grammar]
    cases readOne draft (argument :: arguments) frontend.flags <;> rfl

theorem readFlags_eq (frontend : Frontend) (arguments : Arguments) :
    readFlags arguments frontend.flags = frontend.grammar.readAll {} arguments := by
  rw [readFlags, readRound_eq]
  rfl

end Grammar

end Cli
end Revenant
