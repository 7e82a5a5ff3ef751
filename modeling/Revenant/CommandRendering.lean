import Revenant.CommandLanguage
import Revenant.MountText

/-!
# Asking for a run

Whatever run can be asked for at all has a command line that asks for it.  It is rendered
flag by flag from the run, and read back by what each of its flags says.
-/

namespace Revenant
namespace Cli

section Values

/-- A partition's number as it is written is read back. -/
theorem partitionNumberIn_decimal {number : Nat} (some_ : number ≠ 0) (small : number < 2 ^ 32) :
    partitionNumberIn (decimal number) = .ok number := by
  have digits : (decimal number).takeWhile (isDigitIn 10) = decimal number :=
    List.takeWhile_eq_self_iff.mpr fun _ member => isDigitIn_of_mem_decimal member
  rw [partitionNumberIn, digits, digitsValueIn_decimal, if_neg]
  rintro (empty | large | short | zero)
  · exact decimal_ne_nil number empty
  · exact absurd small (Nat.not_lt.mpr large)
  · exact short rfl
  · exact some_ zero

theorem splitOnSeparators_eq (list : Bytes) :
    splitOnSeparators list = list.splitOn kFormatSeparator := by
  fun_induction splitOnSeparators list with
  | case1 list name whole =>
      have same : name = list := (List.takeWhile_prefix _).eq_of_length whole
      have free : kFormatSeparator ∉ list := by
        rw [← same]
        intro member
        simpa using List.mem_takeWhile_imp member
      rw [same, List.splitOn_eq_singleton free]
  | case2 list name short ih =>
      have free : kFormatSeparator ∉ name := by
        intro member
        simpa using List.mem_takeWhile_imp member
      have joined : list = name ++ list.dropWhile (· ≠ kFormatSeparator) :=
        List.takeWhile_append_dropWhile.symm
      have behind : list.drop name.length = list.dropWhile (· ≠ kFormatSeparator) := by
        conv_lhs => rw [joined, List.drop_left]
      rcases rest : list.dropWhile (· ≠ kFormatSeparator) with _ | ⟨first, later⟩
      · rw [rest, List.append_nil] at joined
        exact absurd (congrArg List.length joined.symm) short
      · have stops : first = kFormatSeparator := by
          have head := List.head?_dropWhile_not (· ≠ kFormatSeparator) list
          rw [rest] at head
          simpa using head
        have dropped : list.drop (name.length + 1) = later := by
          rw [← List.drop_drop, behind, rest]
          rfl
        rw [ih, dropped]
        conv_rhs => rw [joined, rest, stops, List.splitOn_append_cons_self_of_not_mem free]

theorem plain_of_builtin {name : Bytes} (builtin : Session.isBuiltinFormat name = true) :
    kFormatSeparator ∉ name := by
  have plain : ∀ name ∈ Session.kFormatNames, kFormatSeparator ∉ name := by decide +kernel
  exact plain name (List.contains_iff_mem.mp builtin)

/-- Formats joined by commas are read back. -/
theorem formatsIn_intercalate {formats : List Bytes} (some_ : formats ≠ [])
    (known : ∀ format ∈ formats, Session.isBuiltinFormat format = true) :
    formatsIn ([kFormatSeparator].intercalate formats) = some formats := by
  have read : splitOnSeparators ([kFormatSeparator].intercalate formats) = formats := by
    rw [splitOnSeparators_eq]
    exact List.splitOn_intercalate kFormatSeparator
      (fun format member => plain_of_builtin (known format member)) some_
  rw [formatsIn, read, if_pos (List.all_eq_true.mpr known)]

end Values

/-- What a frontend can be asked for. -/
structure Expressible (frontend : Frontend) (request : RunRequest) : Prop where
  source : request.source ≠ []
  session : request.session ≠ []
  destination : request.action = .kRecover → request.destination ≠ []
  partition : request.partition < 2 ^ 32
  formats : ∀ format ∈ request.formats, Session.isBuiltinFormat format = true
  carves : frontend = .carve → request.mode = .kCarveOnly
  undeletes : frontend = .undelete → request.formats = []

/-- The flags that ask for a run, each stated only if it is not what is taken without it. -/
def commandFor (frontend : Frontend) (request : RunRequest) : List Item :=
  [.path .source request.source] ++
    (if request.destination = [] then [] else [.path .destination request.destination]) ++
    [.path .session request.session] ++
    (if request.delivery = .kPreview then [.dryRun] else []) ++
    (if request.action = .kListPartitions then [.listPartitions] else []) ++
    (if request.partition = 0 then [] else [.partition (decimal request.partition)]) ++
    (if request.formats = [] then []
      else [.formats ([kFormatSeparator].intercalate request.formats)]) ++
    (if request.forcePortable then [.forcePortable] else []) ++
    (if request.allowUnverifiedDestination then [.allowUnverifiedDestination] else []) ++
    (if frontend = .undelete then [.mode request.mode] else [])

section Rendering

variable {frontend : Frontend} {request : RunRequest}

theorem filterMap_ite {Key : Type} {condition : Prop} [Decidable condition] (key : Item → Option Key)
    (first second : List Item) :
    (if condition then first else second).filterMap key =
      if condition then first.filterMap key else second.filterMap key := by
  split <;> rfl

theorem commandFor_owned (expressible : Expressible frontend request) :
    ∀ item ∈ commandFor frontend request, frontend.Owns item = true := by
  intro item member
  simp only [commandFor, List.mem_append, List.mem_ite_nil_left, List.mem_ite_nil_right,
    List.mem_singleton] at member
  cases frontend with
  | carve =>
      rcases member with ((((((((rfl | ⟨_, rfl⟩) | rfl) | ⟨_, rfl⟩) | ⟨_, rfl⟩) | ⟨_, rfl⟩) |
        ⟨_, rfl⟩) | ⟨_, rfl⟩) | ⟨_, rfl⟩) | ⟨other, _⟩ <;> first | rfl | cases other
  | undelete =>
      rcases member with ((((((((rfl | ⟨_, rfl⟩) | rfl) | ⟨_, rfl⟩) | ⟨_, rfl⟩) | ⟨_, rfl⟩) |
        ⟨some_, rfl⟩) | ⟨_, rfl⟩) | ⟨_, rfl⟩) | ⟨_, rfl⟩ <;>
        first | rfl | exact absurd (expressible.undeletes rfl) some_

theorem stated_sublist {condition : Prop} [Decidable condition] (own : Once) :
    (if condition then [] else [own]).Sublist [own] := by
  split
  · exact List.nil_sublist _
  · exact List.Sublist.refl _

theorem stated_sublist_of {condition : Prop} [Decidable condition] (own : Once) :
    (if condition then [own] else []).Sublist [own] := by
  split
  · exact List.Sublist.refl _
  · exact List.nil_sublist _

/-- The kinds a command states are some of those there are, in this order. -/
theorem commandFor_once (frontend : Frontend) (request : RunRequest) :
    ((commandFor frontend request).filterMap Item.once).Sublist
      [.dryRun, .listPartitions, .partition, .formats, .forcePortable, .allowUnverifiedDestination,
        .mode] := by
  simp only [commandFor, List.filterMap_append, filterMap_ite]
  have paths : ((if request.destination = [] then List.filterMap Item.once []
      else List.filterMap Item.once [.path .destination request.destination]) : List Once) = [] := by
    split <;> rfl
  rw [paths]
  exact ((((((stated_sublist_of .dryRun).append (stated_sublist_of .listPartitions)).append
    (stated_sublist .partition)).append (stated_sublist .formats)).append
    (stated_sublist_of .forcePortable)).append
    (stated_sublist_of .allowUnverifiedDestination)).append (stated_sublist_of .mode)

theorem commandFor_wellSaid (expressible : Expressible frontend request) :
    WellSaid (commandFor frontend request) := by
  constructor
  · exact (by decide : List.Nodup _).sublist (commandFor_once frontend request)
  · intro item member
    simp only [commandFor, List.mem_append, List.mem_ite_nil_left, List.mem_ite_nil_right,
      List.mem_singleton] at member
    rcases member with ((((((((rfl | ⟨_, rfl⟩) | rfl) | ⟨_, rfl⟩) | ⟨_, rfl⟩) | ⟨some_, rfl⟩) |
      ⟨some_, rfl⟩) | ⟨_, rfl⟩) | ⟨_, rfl⟩) | ⟨_, rfl⟩ <;> try rfl
    · rw [Item.Sound, partitionNumberIn_decimal some_ expressible.partition]
      rfl
    · rw [Item.Sound, formatsIn_intercalate some_ expressible.formats]
      rfl

section Parts

variable {Value : Type} {condition : Prop} [Decidable condition]

theorem lastSaid_unless (saysOf : Item → Option Value) (item : Item) :
    lastSaid saysOf (if condition then [] else [item]) = if condition then none else saysOf item := by
  split
  · rfl
  · exact lastSaid_singleton saysOf item

theorem lastSaid_where (saysOf : Item → Option Value) (item : Item) :
    lastSaid saysOf (if condition then [item] else []) = if condition then saysOf item else none := by
  split
  · exact lastSaid_singleton saysOf item
  · rfl

end Parts

/-- A command says of each kind what the request has of it, where that is not taken anyway. -/
theorem draftOf_commandFor (expressible : Expressible frontend request) :
    draftOf (commandFor frontend request) =
      { source := request.source
        destination := request.destination
        session := request.session
        mode := if frontend = .undelete then some request.mode else none
        delivery := if request.delivery = .kPreview then some .kPreview else none
        action := if request.action = .kListPartitions then some .kListPartitions else none
        partition := if request.partition = 0 then none else some request.partition
        formats := request.formats
        forcePortable := if request.forcePortable then some true else none
        allowUnverifiedDestination :=
          if request.allowUnverifiedDestination then some true else none } := by
  have number (some_ : request.partition ≠ 0) :
      partitionNumberIn (decimal request.partition) = .ok request.partition :=
    partitionNumberIn_decimal some_ expressible.partition
  have named (some_ : request.formats ≠ []) :
      formatsIn ([kFormatSeparator].intercalate request.formats) = some request.formats :=
    formatsIn_intercalate some_ expressible.formats
  simp only [draftOf, commandFor, lastSaid_append, lastSaid_unless, lastSaid_where, lastSaid_singleton,
    OptionDraft.mk.injEq]
  refine ⟨?source, ?destination, ?session, ?mode, ?delivery, ?action, ?partition, ?formats, ?portable,
    ?unverified⟩
  all_goals simp only [Item.pathOf, Item.modeOf, Item.deliveryOf, Item.actionOf, Item.partitionOf,
    Item.formatsOf, Item.forcePortableOf, Item.allowOf, ite_self, Option.none_or, Option.or_none]
  case source => simp
  case destination => by_cases unsaid : request.destination = [] <;> simp [unsaid]
  case session => simp
  case partition =>
      by_cases whole : request.partition = 0
      · rw [if_pos whole, if_pos whole]
      · rw [if_neg whole, if_neg whole, number whole]
        rfl
  case formats =>
      by_cases unsaid : request.formats = []
      · rw [if_pos unsaid, unsaid]
        rfl
      · rw [if_neg unsaid, named unsaid]
        rfl

/-- What a command says is what was to be asked for, once what it leaves out is filled in. -/
theorem requestOf_commandFor (expressible : Expressible frontend request) :
    requestOf frontend (commandFor frontend request) = request := by
  rw [requestOf, draftOf_commandFor expressible]
  have mode : (if frontend = .undelete then some request.mode else none).getD frontend.defaultMode =
      request.mode := by
    cases frontend with
    | carve => exact (expressible.carves rfl).symm
    | undelete => rfl
  have partition : (if request.partition = 0 then none else some request.partition).getD
      RunScope.kWholeSource = request.partition := by
    split
    case isTrue whole => exact whole.symm
    case isFalse => rfl
  have delivery : (if request.delivery = .kPreview then some .kPreview else none).getD
      Delivery.kExtract = request.delivery := by
    cases request.delivery <;> rfl
  have action : (if request.action = .kListPartitions then some .kListPartitions else none).getD
      Action.kRecover = request.action := by
    cases request.action <;> rfl
  have portable (flag : Bool) : (if flag = true then some true else none).getD false = flag := by
    cases flag <;> rfl
  simp only [settled, sessionOf, if_pos expressible.session, mode, partition, delivery, action, portable]

/-- A request that can be asked for is asked for by the flags for it. -/
theorem parse_expressible (expressible : Expressible frontend request) :
    frontend.parse ((commandFor frontend request).flatMap Item.text) = .ok request := by
  rw [parse_items (commandFor_owned expressible), if_pos, requestOf_commandFor expressible]
  refine ⟨commandFor_wellSaid expressible, ?_⟩
  rw [Complete, draftOf_commandFor expressible]
  refine ⟨expressible.source, fun writes => expressible.destination ?_⟩
  cases action : request.action with
  | kRecover => rfl
  | kListPartitions => simp [action] at writes

end Rendering

section Asked

variable {items : List Item}

theorem exists_of_lastSaid {Value : Type} {saysOf : Item → Option Value} {value : Value}
    (said : lastSaid saysOf items = some value) : ∃ item ∈ items, saysOf item = some value :=
  List.mem_filterMap.mp (List.mem_of_getLast? said)

theorem partitionNumberIn_bounded {text : Bytes} {number : Nat}
    (read : partitionNumberIn text = .ok number) : number < 2 ^ 32 := by
  unfold partitionNumberIn at read
  dsimp only at read
  split at read <;> cases read
  rename_i sound
  rw [not_or, not_or] at sound
  exact Nat.not_le.mp sound.2.1

theorem formatsIn_builtin {list : Bytes} {formats : List Bytes} (known : formatsIn list = some formats) :
    ∀ format ∈ formats, Session.isBuiltinFormat format = true := by
  unfold formatsIn at known
  split at known <;> cases known
  rename_i sound
  exact List.all_eq_true.mp sound

theorem sessionOf_ne_nil (draft : OptionDraft) : sessionOf draft ≠ [] := by
  unfold sessionOf pathUnder
  split
  case isTrue some_ => exact some_
  case isFalse =>
      split
      · exact List.append_ne_nil_of_right_ne_nil _ (by decide)
      · exact List.append_ne_nil_of_right_ne_nil _ (List.cons_ne_nil _ _)

/-- What items of a frontend ask for can be asked for. -/
theorem expressible_requestOf {frontend : Frontend} (owned : ∀ item ∈ items, frontend.Owns item = true)
    (complete : Complete items) : Expressible frontend (requestOf frontend items) where
  source := complete.1
  session := sessionOf_ne_nil _
  destination := complete.2
  partition := by
    change (lastSaid Item.partitionOf items).getD RunScope.kWholeSource < 2 ^ 32
    cases said : lastSaid Item.partitionOf items with
    | none => decide
    | some number =>
        obtain ⟨item, -, own⟩ := exists_of_lastSaid said
        cases item <;> try cases own
        rename_i text
        change (partitionNumberIn text).toOption = some number at own
        cases read : partitionNumberIn text with
        | error error =>
            rw [read] at own
            cases own
        | ok value =>
            rw [read] at own
            cases own
            exact partitionNumberIn_bounded read
  formats := by
    change ∀ format ∈ (lastSaid Item.formatsOf items).getD [], _
    cases said : lastSaid Item.formatsOf items with
    | none => exact List.forall_mem_nil _
    | some formats =>
        obtain ⟨item, -, own⟩ := exists_of_lastSaid said
        cases item <;> try cases own
        exact formatsIn_builtin own
  carves := by
    rintro rfl
    change (lastSaid Item.modeOf items).getD .kCarveOnly = .kCarveOnly
    cases said : lastSaid Item.modeOf items with
    | none => rfl
    | some chosen =>
        obtain ⟨item, member, own⟩ := exists_of_lastSaid said
        cases item <;> try cases own
        cases owned _ member
  undeletes := by
    rintro rfl
    change (lastSaid Item.formatsOf items).getD [] = []
    cases said : lastSaid Item.formatsOf items with
    | none => rfl
    | some formats =>
        obtain ⟨item, member, own⟩ := exists_of_lastSaid said
        cases item <;> try cases own
        cases owned _ member

end Asked

end Cli
end Revenant
