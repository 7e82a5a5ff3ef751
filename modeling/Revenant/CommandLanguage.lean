import Revenant.CommandGrammar

/-!
# What command lines there are

A command line is read one item at a time, and every item is a flag with its value if it
takes one.  So the command lines that are taken are the texts of lists of items in which
nothing that may be said once is said twice, and what they ask for is what their items say.
-/

namespace Revenant
namespace Cli

section Meaning

/-- What may be said once. -/
inductive Once where
  | dryRun
  | listPartitions
  | partition
  | forcePortable
  | allowUnverifiedDestination
  | formats
  | mode
deriving DecidableEq

def Item.once : Item → Option Once
  | .path _ _ => none
  | .dryRun => some .dryRun
  | .listPartitions => some .listPartitions
  | .partition _ => some .partition
  | .forcePortable => some .forcePortable
  | .allowUnverifiedDestination => some .allowUnverifiedDestination
  | .formats _ => some .formats
  | .mode _ => some .mode

/-- A value that says something: a partition's number, or formats there are. -/
def Item.Sound : Item → Bool
  | .partition text => (partitionNumberIn text).toOption.isSome
  | .formats list => (formatsIn list).isSome
  | _ => true

def Item.pathOf (field : PathField) : Item → Option Bytes
  | .path own value => if own = field then some value else none
  | _ => none

def Item.deliveryOf : Item → Option Delivery
  | .dryRun => some .kPreview
  | _ => none

def Item.actionOf : Item → Option Action
  | .listPartitions => some .kListPartitions
  | _ => none

def Item.partitionOf : Item → Option Nat
  | .partition text => (partitionNumberIn text).toOption
  | _ => none

def Item.formatsOf : Item → Option (List Bytes)
  | .formats list => formatsIn list
  | _ => none

def Item.forcePortableOf : Item → Option Bool
  | .forcePortable => some true
  | _ => none

def Item.allowOf : Item → Option Bool
  | .allowUnverifiedDestination => some true
  | _ => none

def Item.modeOf : Item → Option RecoveryMode
  | .mode chosen => some chosen
  | _ => none

/-- What the last item that says anything of the kind says. -/
def lastSaid {Value : Type} (saysOf : Item → Option Value) (items : List Item) : Option Value :=
  (items.filterMap saysOf).getLast?

/-- What items say, all together. -/
def draftOf (items : List Item) : OptionDraft where
  source := (lastSaid (Item.pathOf .source) items).getD []
  destination := (lastSaid (Item.pathOf .destination) items).getD []
  session := (lastSaid (Item.pathOf .session) items).getD []
  mode := lastSaid Item.modeOf items
  delivery := lastSaid Item.deliveryOf items
  action := lastSaid Item.actionOf items
  partition := lastSaid Item.partitionOf items
  formats := (lastSaid Item.formatsOf items).getD []
  forcePortable := lastSaid Item.forcePortableOf items
  allowUnverifiedDestination := lastSaid Item.allowOf items

/-- Nothing that may be said once is said twice, and every value says something. -/
structure WellSaid (items : List Item) : Prop where
  once : (items.filterMap Item.once).Nodup
  sound : ∀ item ∈ items, item.Sound = true

instance (items : List Item) : Decidable (WellSaid items) :=
  decidable_of_iff ((items.filterMap Item.once).Nodup ∧ ∀ item ∈ items, item.Sound = true)
    ⟨fun both => ⟨both.1, both.2⟩, fun well => ⟨well.once, well.sound⟩⟩

section Appending

variable {Value : Type} {saysOf : Item → Option Value} {items : List Item} {item : Item}

theorem lastSaid_append (saysOf : Item → Option Value) (items more : List Item) :
    lastSaid saysOf (items ++ more) = (lastSaid saysOf more).or (lastSaid saysOf items) := by
  rw [lastSaid, List.filterMap_append, List.getLast?_append]
  rfl

theorem lastSaid_singleton (saysOf : Item → Option Value) (item : Item) :
    lastSaid saysOf [item] = saysOf item := by
  cases said : saysOf item <;> simp [lastSaid, said]

theorem lastSaid_eq_none_iff :
    lastSaid saysOf items = none ↔ ∀ item ∈ items, saysOf item = none := by
  unfold lastSaid
  rw [List.getLast?_eq_none_iff, List.filterMap_eq_nil_iff]

theorem wellSaid_append : WellSaid (items ++ [item]) ↔
    WellSaid items ∧ item.Sound = true ∧ ∀ own, item.once = some own → own ∉ items.filterMap Item.once := by
  constructor
  · rintro ⟨once, sound⟩
    rw [List.filterMap_append, List.nodup_append] at once
    refine ⟨⟨once.1, fun other member => sound other (List.mem_append_left _ member)⟩,
      sound item (by simp), fun own said member => ?_⟩
    exact once.2.2 own member own (by simp [said]) rfl
  · rintro ⟨⟨once, sound⟩, own, fresh⟩
    constructor
    · rw [List.filterMap_append, List.nodup_append]
      refine ⟨once, ?_, ?_⟩
      · cases said : item.once <;> simp [said]
      · intro one member other put same
        cases said : item.once with
        | none => simp [said] at put
        | some kind =>
            have other_ : other = kind := by simpa [said] using put
            exact fresh kind said (other_ ▸ same ▸ member)
    · intro other member
      rcases List.mem_append.mp member with old | new
      · exact sound other old
      · rw [List.mem_singleton.mp new]
        exact own

theorem isSome_lastSaid_iff {kind : Once}
    (kinds : ∀ item ∈ items, (saysOf item).isSome = true ↔ item.once = some kind) :
    (lastSaid saysOf items).isSome = true ↔ kind ∈ items.filterMap Item.once := by
  rw [Option.isSome_iff_ne_none, ne_eq, lastSaid_eq_none_iff, List.mem_filterMap]
  constructor
  · intro said
    by_contra unsaid
    apply said
    intro item member
    rw [← Option.not_isSome_iff_eq_none]
    exact fun value => unsaid ⟨item, member, (kinds item member).mp value⟩
  · rintro ⟨item, member, own⟩ none_
    have value := (kinds item member).mpr own
    rw [none_ item member] at value
    cases value

end Appending

section Drafts

variable {items : List Item}

theorem splitOnSeparators_ne_nil (list : Bytes) : splitOnSeparators list ≠ [] := by
  unfold splitOnSeparators
  dsimp only
  split <;> exact List.cons_ne_nil _ _

theorem formatsIn_ne_nil {list : Bytes} {formats : List Bytes}
    (known : formatsIn list = some formats) : formats ≠ [] := by
  unfold formatsIn at known
  split at known <;> cases known
  exact splitOnSeparators_ne_nil list

/-- Whether a draft shows that something was said. -/
def OptionDraft.stated (draft : OptionDraft) : Once → Bool
  | .dryRun => draft.delivery.isSome
  | .listPartitions => draft.action.isSome
  | .partition => draft.partition.isSome
  | .forcePortable => draft.forcePortable.isSome
  | .allowUnverifiedDestination => draft.allowUnverifiedDestination.isSome
  | .formats => draft.formats ≠ []
  | .mode => draft.mode.isSome

/-- What an item adds to a draft. -/
def OptionDraft.say (draft : OptionDraft) (item : Item) : OptionDraft where
  source := (item.pathOf .source).getD draft.source
  destination := (item.pathOf .destination).getD draft.destination
  session := (item.pathOf .session).getD draft.session
  mode := item.modeOf.or draft.mode
  delivery := item.deliveryOf.or draft.delivery
  action := item.actionOf.or draft.action
  partition := item.partitionOf.or draft.partition
  formats := item.formatsOf.getD draft.formats
  forcePortable := item.forcePortableOf.or draft.forcePortable
  allowUnverifiedDestination := item.allowOf.or draft.allowUnverifiedDestination

theorem draftOf_append (items : List Item) (item : Item) :
    draftOf (items ++ [item]) = (draftOf items).say item := by
  simp only [draftOf, OptionDraft.say, lastSaid_append, lastSaid_singleton, Option.getD_or]

/-- A sound item that was not said before is taken, and any other is refused. -/
def Item.Taken (draft : OptionDraft) (item : Item) : Prop :=
  item.Sound = true ∧ ∀ kind, item.once = some kind → draft.stated kind = false

instance (draft : OptionDraft) (item : Item) : Decidable (item.Taken draft) :=
  match said : item.once with
  | none => decidable_of_iff (item.Sound = true) (by simp [Item.Taken, said])
  | some kind =>
      decidable_of_iff (item.Sound = true ∧ draft.stated kind = false) (by simp [Item.Taken, said])

theorem apply_once {draft : OptionDraft} {item : Item} {kind : Once} (sound : item.Sound = true)
    (own : item.once = some kind)
    (does : item.apply draft = if draft.stated kind then none else some (draft.say item)) :
    item.apply draft = if item.Taken draft then some (draft.say item) else none := by
  rw [does]
  cases said : draft.stated kind <;> simp [Item.Taken, sound, own, said]

theorem apply_unsound {draft : OptionDraft} {item : Item} (unsound : item.Sound = false)
    (refused : item.apply draft = none) :
    item.apply draft = if item.Taken draft then some (draft.say item) else none := by
  rw [refused, if_neg]
  simp [Item.Taken, unsound]

theorem apply_eq (draft : OptionDraft) (item : Item) :
    item.apply draft = if item.Taken draft then some (draft.say item) else none := by
  cases item with
  | path field value =>
      rw [if_pos ⟨rfl, by intro kind own; cases own⟩]
      cases field <;> rfl
  | dryRun => exact apply_once rfl rfl rfl
  | listPartitions => exact apply_once rfl rfl rfl
  | forcePortable => exact apply_once rfl rfl rfl
  | allowUnverifiedDestination => exact apply_once rfl rfl rfl
  | mode chosen => exact apply_once rfl rfl rfl
  | partition text =>
      cases number : (partitionNumberIn text).toOption with
      | none => exact apply_unsound (by simp [Item.Sound, number]) (by simp [Item.apply, number])
      | some value =>
          have taken : Item.partitionOf (.partition text) = some value := number
          have adds : draft.say (.partition text) = { draft with partition := some value } := by
            simp only [OptionDraft.say, taken]
            rfl
          refine apply_once (by simp [Item.Sound, number]) rfl ?_
          simp only [Item.apply, number, Option.map_some, OptionDraft.stated, adds]
  | formats list =>
      cases known : formatsIn list with
      | none => exact apply_unsound (by simp [Item.Sound, known]) (by simp [Item.apply, known])
      | some formats =>
          have taken : Item.formatsOf (.formats list) = some formats := known
          have adds : draft.say (.formats list) = { draft with formats := formats } := by
            simp only [OptionDraft.say, taken]
            rfl
          refine apply_once (by simp [Item.Sound, known]) rfl ?_
          simp only [Item.apply, known, Option.map_some, OptionDraft.stated, adds, decide_eq_true_eq]

/-- A list of formats that was said names some. -/
theorem formats_draftOf (items : List Item) :
    (draftOf items).formats ≠ [] ↔ (lastSaid Item.formatsOf items).isSome = true := by
  cases said : lastSaid Item.formatsOf items with
  | none => simp [draftOf, said]
  | some formats =>
      have named : formats ≠ [] := by
        obtain ⟨item, member, own⟩ := List.mem_filterMap.mp (List.mem_of_getLast? said)
        cases item <;> first
          | cases own
          | exact formatsIn_ne_nil own
      simp [draftOf, said, named]

/-- What is said once shows in the draft. -/
theorem stated_draftOf (well : WellSaid items) (kind : Once) :
    (draftOf items).stated kind = true ↔ kind ∈ items.filterMap Item.once := by
  cases kind with
  | dryRun => exact isSome_lastSaid_iff fun item _ => by cases item <;> simp [Item.deliveryOf, Item.once]
  | listPartitions =>
      exact isSome_lastSaid_iff fun item _ => by cases item <;> simp [Item.actionOf, Item.once]
  | forcePortable =>
      exact isSome_lastSaid_iff fun item _ => by cases item <;> simp [Item.forcePortableOf, Item.once]
  | allowUnverifiedDestination =>
      exact isSome_lastSaid_iff fun item _ => by cases item <;> simp [Item.allowOf, Item.once]
  | mode => exact isSome_lastSaid_iff fun item _ => by cases item <;> simp [Item.modeOf, Item.once]
  | partition =>
      refine isSome_lastSaid_iff fun item member => ?_
      have sound := well.sound item member
      cases item <;> simp_all [Item.partitionOf, Item.once, Item.Sound]
  | formats =>
      rw [OptionDraft.stated, decide_eq_true_iff, formats_draftOf]
      refine isSome_lastSaid_iff fun item member => ?_
      have sound := well.sound item member
      cases item <;> simp_all [Item.formatsOf, Item.once, Item.Sound]

/-- Items one after another are taken where they are well said, and say what they say
together. -/
theorem applyAll_eq (frontend : Frontend) (items : List Item) :
    frontend.grammar.applyAll {} items = if WellSaid items then some (draftOf items) else none := by
  induction items using List.reverseRecOn with
  | nil => rfl
  | append_singleton items item ih =>
      have split : frontend.grammar.applyAll {} (items ++ [item]) =
          (frontend.grammar.applyAll {} items).bind fun draft => item.apply draft := by
        simp [LoopRun.TokenGrammar.applyAll, List.foldlM_append, Frontend.grammar]
      rw [split, ih]
      by_cases well : WellSaid items
      · rw [if_pos well, Option.bind_some, apply_eq, draftOf_append]
        have fresh : item.Taken (draftOf items) ↔ WellSaid (items ++ [item]) := by
          simp only [Item.Taken, wellSaid_append, well, true_and, ← stated_draftOf well,
            Bool.not_eq_true]
        simp only [fresh]
      · rw [if_neg well, if_neg fun whole => well (wellSaid_append.mp whole).1]
        rfl

end Drafts

end Meaning

section Language

variable {frontend : Frontend} {items : List Item}

/-- A source, and somewhere to write to unless nothing is to be written. -/
def Complete (items : List Item) : Prop :=
  (draftOf items).source ≠ [] ∧
    ((draftOf items).action.getD .kRecover = .kRecover → (draftOf items).destination ≠ [])

instance (items : List Item) : Decidable (Complete items) := inferInstanceAs (Decidable (_ ∧ _))

/-- What items ask a frontend for. -/
def requestOf (frontend : Frontend) (items : List Item) : RunRequest :=
  settled (draftOf items) frontend.defaultMode

theorem withRequiredPaths_eq (items : List Item) :
    withRequiredPaths (draftOf items) =
      if Complete items then .ok (draftOf items) else .error usageError := by
  unfold withRequiredPaths
  dsimp only
  by_cases complete : Complete items
  · rw [if_pos complete, if_neg]
    rintro (source | ⟨writes, destination⟩)
    · exact complete.1 source
    · exact complete.2 writes destination
  · rw [if_neg complete, if_pos]
    by_contra there
    rw [not_or, not_and] at there
    exact complete there

theorem parse_items (owned : ∀ item ∈ items, frontend.Owns item = true) :
    frontend.parse (items.flatMap Item.text) =
      if WellSaid items ∧ Complete items then .ok (requestOf frontend items)
      else .error usageError := by
  have read : readFlags (items.flatMap Item.text) frontend.flags =
      if WellSaid items then .ok (draftOf items) else .error usageError := by
    have whole : frontend.grammar.readAll {} (frontend.grammar.textOf items) = _ :=
      LoopRun.TokenGrammar.readAll_textOf owned ({} : OptionDraft)
    rw [LoopRun.TokenGrammar.outcomeOf, applyAll_eq] at whole
    rw [readFlags_eq]
    refine Eq.trans whole ?_
    by_cases well : WellSaid items
    · rw [if_pos well, if_pos well]
    · rw [if_neg well, if_neg well]
      rfl
  rw [Frontend.parse_eq, readRecoveryOptions, read]
  by_cases well : WellSaid items
  · rw [if_pos well]
    change (withRequiredPaths (draftOf items) >>= fun complete =>
      pure (settled complete frontend.defaultMode)) = _
    rw [withRequiredPaths_eq]
    by_cases complete : Complete items
    · rw [if_pos complete, if_pos ⟨well, complete⟩]
      rfl
    · rw [if_neg complete, if_neg fun both => complete both.2]
      rfl
  · rw [if_neg well, if_neg fun both => well both.1]
    rfl

theorem readFlags_refused {arguments : Arguments} {error : Error}
    (refused : readFlags arguments frontend.flags = .error error) : error = usageError := by
  rw [readFlags_eq] at refused
  have ends : LoopRun.Ends frontend.grammar.round ({}, arguments)
      (frontend.grammar.readAll {} arguments) :=
    LoopRun.TokenGrammar.ends_readAll ({} : OptionDraft) arguments
  rw [refused] at ends
  have kept : ∀ held after : OptionDraft × Arguments, True →
      frontend.grammar.round held = .inr after → True := fun _ _ _ _ => trivial
  obtain ⟨⟨draft, more⟩, -, last⟩ := ends.invariant kept trivial
  rw [← readRound_eq] at last
  cases more with
  | nil => cases last
  | cons argument arguments =>
      simp only [readRound] at last
      split at last
      case h_1 reason failed =>
          cases last
          exact readOne_refused failed
      case h_2 => cases last

/-- A line that is taken is the text of items the frontend has. -/
theorem items_of_parse {arguments : Arguments} {request : RunRequest}
    (parsed : frontend.parse arguments = .ok request) :
    ∃ items, (∀ item ∈ items, frontend.Owns item = true) ∧ arguments = items.flatMap Item.text ∧
      WellSaid items ∧ Complete items ∧ request = requestOf frontend items := by
  have read := parsed
  rw [Frontend.parse_eq, readRecoveryOptions, bind_eq_ok_iff] at read
  obtain ⟨draft, flags, _⟩ := read
  rw [readFlags_eq] at flags
  obtain ⟨items, owned, rfl, _⟩ := LoopRun.TokenGrammar.readAll_eq_ok_iff.mp flags
  have whole := parse_items owned
  change frontend.parse (items.flatMap Item.text) = _ at parsed
  rw [whole] at parsed
  split at parsed
  case isTrue both =>
      cases parsed
      exact ⟨items, owned, rfl, both.1, both.2, rfl⟩
  case isFalse => cases parsed

/-- The command lines a frontend takes are the texts of items of its own, none that may be
said once said twice, with the paths a run needs; what such a line asks for is what its items
say, and every other line is refused as one of usage. -/
theorem parse_language (frontend : Frontend) (arguments : Arguments) :
    (∀ request, frontend.parse arguments = .ok request ↔
      ∃ items, (∀ item ∈ items, frontend.Owns item = true) ∧
        arguments = items.flatMap Item.text ∧ WellSaid items ∧ Complete items ∧
        request = requestOf frontend items) ∧
    ∀ error, frontend.parse arguments = .error error → error = usageError := by
  constructor
  · intro request
    constructor
    · exact items_of_parse
    · rintro ⟨items, owned, rfl, well, complete, rfl⟩
      rw [parse_items owned, if_pos ⟨well, complete⟩]
  · intro error refused
    rw [Frontend.parse_eq, readRecoveryOptions] at refused
    cases flags : readFlags arguments frontend.flags with
    | error reason =>
        rw [flags] at refused
        cases refused
        exact readFlags_refused flags
    | ok draft =>
        rw [flags] at refused
        change (withRequiredPaths draft >>= fun complete =>
          pure (settled complete frontend.defaultMode)) = _ at refused
        unfold withRequiredPaths at refused
        dsimp only at refused
        split at refused <;> cases refused
        rfl

/-- The path an item fills. -/
def Item.pathField : Item → Option PathField
  | .path field _ => some field
  | _ => none

/-- What is said of a key that stands once is said once. -/
theorem filterMap_length_le_one {Key Value : Type} {key : Item → Option Key}
    {saysOf : Item → Option Value} {only : Key} (once : (items.filterMap key).Nodup)
    (keys : ∀ item ∈ items, (saysOf item).isSome = true → key item = some only) :
    (items.filterMap saysOf).length ≤ 1 := by
  induction items with
  | nil => exact Nat.zero_le _
  | cons item items ih =>
      have later := fun other member => keys other (List.mem_cons_of_mem item member)
      cases said : saysOf item with
      | none =>
          rw [List.filterMap_cons_none said]
          refine ih ?_ later
          exact once.sublist ((List.sublist_cons_self item items).filterMap key)
      | some value =>
          have own : key item = some only := keys item List.mem_cons_self (by rw [said]; rfl)
          rw [List.filterMap_cons_some own, List.nodup_cons] at once
          have rest : items.filterMap saysOf = [] := by
            rw [List.filterMap_eq_nil_iff]
            intro other member
            rw [← Option.not_isSome_iff_eq_none]
            exact fun more => once.1 (List.mem_filterMap.mpr ⟨other, member, later other member more⟩)
          rw [List.filterMap_cons_some said, rest]
          exact Nat.le_refl 1

theorem lastSaid_perm {Key Value : Type} {key : Item → Option Key} {saysOf : Item → Option Value}
    (only : Key) {other : List Item} (perm : items.Perm other) (once : (items.filterMap key).Nodup)
    (keys : ∀ item ∈ items, (saysOf item).isSome = true → key item = some only) :
    lastSaid saysOf items = lastSaid saysOf other := by
  have few := filterMap_length_le_one once keys
  have same := perm.filterMap saysOf
  unfold lastSaid
  congr 1
  rcases said : items.filterMap saysOf with _ | ⟨value, _ | ⟨second, more⟩⟩
  · rw [said] at same
    exact same.nil_eq
  · rw [said] at same
    exact (List.perm_singleton.mp same.symm).symm
  · rw [said] at few
    simp at few

theorem draftOf_perm {other : List Item} (perm : items.Perm other) (well : WellSaid items)
    (paths : (items.filterMap Item.pathField).Nodup) : draftOf items = draftOf other := by
  have path (field : PathField) :
      lastSaid (Item.pathOf field) items = lastSaid (Item.pathOf field) other := by
    refine lastSaid_perm field perm paths fun item _ => ?_
    cases item with
    | path own value =>
        by_cases same : own = field <;> simp [Item.pathOf, Item.pathField, same]
    | _ => simp [Item.pathOf]
  have mode : lastSaid Item.modeOf items = lastSaid Item.modeOf other :=
    lastSaid_perm .mode perm well.once fun item _ => by
      cases item <;> simp [Item.modeOf, Item.once]
  have delivery : lastSaid Item.deliveryOf items = lastSaid Item.deliveryOf other :=
    lastSaid_perm .dryRun perm well.once fun item _ => by
      cases item <;> simp [Item.deliveryOf, Item.once]
  have action : lastSaid Item.actionOf items = lastSaid Item.actionOf other :=
    lastSaid_perm .listPartitions perm well.once fun item _ => by
      cases item <;> simp [Item.actionOf, Item.once]
  have partition : lastSaid Item.partitionOf items = lastSaid Item.partitionOf other :=
    lastSaid_perm .partition perm well.once fun item _ => by
      cases item <;> simp [Item.partitionOf, Item.once]
  have formats : lastSaid Item.formatsOf items = lastSaid Item.formatsOf other :=
    lastSaid_perm .formats perm well.once fun item _ => by
      cases item <;> simp [Item.formatsOf, Item.once]
  have force : lastSaid Item.forcePortableOf items = lastSaid Item.forcePortableOf other :=
    lastSaid_perm .forcePortable perm well.once fun item _ => by
      cases item <;> simp [Item.forcePortableOf, Item.once]
  have allow : lastSaid Item.allowOf items = lastSaid Item.allowOf other :=
    lastSaid_perm .allowUnverifiedDestination perm well.once fun item _ => by
      cases item <;> simp [Item.allowOf, Item.once]
  simp only [draftOf, path, mode, delivery, action, partition, formats, force, allow]

theorem WellSaid.perm {other : List Item} (perm : items.Perm other) (well : WellSaid items) :
    WellSaid other :=
  ⟨(perm.filterMap Item.once).nodup_iff.mp well.once,
    fun item member => well.sound item (perm.mem_iff.mpr member)⟩

/-- Flags may come in any order, as long as no path is given twice. -/
theorem parse_any_order {other : List Item} (owned : ∀ item ∈ items, frontend.Owns item = true)
    (paths : (items.filterMap Item.pathField).Nodup) (perm : items.Perm other) :
    frontend.parse (other.flatMap Item.text) = frontend.parse (items.flatMap Item.text) := by
  have others : ∀ item ∈ other, frontend.Owns item = true :=
    fun item member => owned item (perm.mem_iff.mpr member)
  rw [parse_items owned, parse_items others]
  by_cases well : WellSaid items
  · have same := draftOf_perm perm well paths
    have complete : Complete other ↔ Complete items := by rw [Complete, Complete, same]
    have asked : requestOf frontend other = requestOf frontend items := by
      rw [requestOf, requestOf, same]
    simp only [well, well.perm perm, complete, asked]
  · have others : ¬ WellSaid other := fun later => well (later.perm perm.symm)
    rw [if_neg fun both => others both.1, if_neg fun both => well both.1]

/-- The destination first and the source last, or the other way round. -/
theorem parse_any_order_twoPaths :
    Frontend.undelete.parse ([Item.path .destination (ascii "out"), .dryRun,
        .path .source (ascii "disk.img")].flatMap Item.text) =
      Frontend.undelete.parse ([Item.path .source (ascii "disk.img"), .path .destination (ascii "out"),
        .dryRun].flatMap Item.text) :=
  parse_any_order (by decide) (by decide) (by decide)

end Language

end Cli
end Revenant
