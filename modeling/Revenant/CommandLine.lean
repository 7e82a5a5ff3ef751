import Revenant.DestinationRule
import Revenant.RunDelivery
import Revenant.SessionOwnership
import Revenant.TokenGrammar

/-!
# The command line

A flag is stated once, in a table: its name, the value it takes and what reading it does.
The grammar reads flags off the front of the arguments by that table, and the help is
rendered from it.
-/

namespace Revenant
namespace Cli

/-- What a run is asked to do with its source. -/
inductive Action where
  | kRecover
  | kListPartitions
deriving DecidableEq, Repr

deriving instance DecidableEq for Revenant.RunRequest

/-- A run as it was asked for, defaults applied. -/
structure RunRequest extends Revenant.RunRequest where
  source : Bytes
  destination : Bytes
  session : Bytes
  delivery : Delivery
  action : Action
  partition : Nat
  forcePortable : Bool
  allowUnverifiedDestination : Bool
deriving DecidableEq

abbrev Arguments := List Bytes

/-- The options as a command line states them, before defaults are applied. -/
structure OptionDraft where
  source : Bytes := []
  destination : Bytes := []
  session : Bytes := []
  mode : Option RecoveryMode := none
  delivery : Option Delivery := none
  action : Option Action := none
  partition : Option Nat := none
  formats : List Bytes := []
  forcePortable : Option Bool := none
  allowUnverifiedDestination : Option Bool := none
deriving DecidableEq

/-- Reads one flag, handed the arguments from it on, and gives back what is left. -/
abbrev FlagReader := OptionDraft → Arguments → Result (OptionDraft × Arguments)

/-- What one flag is.  One without a reader is answered before the grammar runs. -/
structure FlagDescriptor where
  name : Bytes
  metavar : Bytes
  help : Bytes
  read : Option FlagReader

def FlagDescriptor.takesValue (flag : FlagDescriptor) : Bool := !flag.metavar.isEmpty

/-- The one refusal a command line can earn. -/
def usageError : Error := { code := .kInvalidArgument }

structure FlagValue where
  value : Bytes
  rest : Arguments

def valueAfterFlag (arguments : Arguments) : Result FlagValue :=
  match arguments.drop 1 with
  | [] => .error usageError
  | value :: rest => .ok ⟨value, rest⟩

section Readers

/-- A flag that fills a path field, given by what filling it does. -/
def applyPath (fill : OptionDraft → Bytes → OptionDraft) : FlagReader := fun draft arguments => do
  let taken ← valueAfterFlag arguments
  return (fill draft taken.value, taken.rest)

/-- A flag without a value, which is refused where it was stated before. -/
def applyOnce (stated : OptionDraft → Bool) (state : OptionDraft → OptionDraft) : FlagReader :=
  fun draft arguments =>
    if stated draft then .error usageError else .ok (state draft, arguments.drop 1)

def applyDryRun : FlagReader :=
  applyOnce (·.delivery.isSome) fun draft => { draft with delivery := some .kPreview }

def applyListPartitions : FlagReader :=
  applyOnce (·.action.isSome) fun draft => { draft with action := some .kListPartitions }

def applyForcePortable : FlagReader :=
  applyOnce (·.forcePortable.isSome) fun draft => { draft with forcePortable := some true }

def applyAllowUnverifiedDestination : FlagReader :=
  applyOnce (·.allowUnverifiedDestination.isSome) fun draft =>
    { draft with allowUnverifiedDestination := some true }

/-- A decimal 32-bit number other than zero, with nothing behind it. -/
def partitionNumberIn (text : Bytes) : Result Nat :=
  let digits := text.takeWhile (isDigitIn 10)
  if digits = [] ∨ 2 ^ 32 ≤ digitsValueIn 10 digits ∨ digits.length ≠ text.length ∨
      digitsValueIn 10 digits = 0 then .error usageError
  else .ok (digitsValueIn 10 digits)

def takePartition (draft : OptionDraft) (taken : FlagValue) : Result (OptionDraft × Arguments) := do
  let number ← partitionNumberIn taken.value
  return ({ draft with partition := some number }, taken.rest)

def applyPartition : FlagReader := fun draft arguments =>
  if draft.partition.isSome then .error usageError
  else do
    let taken ← valueAfterFlag arguments
    takePartition draft taken

def kFormatSeparator : UInt8 := 0x2C

/-- The list as written, separators removed and nothing else interpreted. -/
def splitOnSeparators (list : Bytes) : List Bytes :=
  let name := list.takeWhile (· ≠ kFormatSeparator)
  if name.length = list.length then [name]
  else name :: splitOnSeparators (list.drop (name.length + 1))
termination_by list.length
decreasing_by
  have shorter : name.length ≤ list.length := (List.takeWhile_sublist _).length_le
  rw [List.length_drop]
  omega

/-- Every name in the list, or nothing when one of them names no format. -/
def formatsIn (list : Bytes) : Option (List Bytes) :=
  if (splitOnSeparators list).all Session.isBuiltinFormat then some (splitOnSeparators list) else none

def takeFormats (draft : OptionDraft) (taken : FlagValue) : Result (OptionDraft × Arguments) :=
  match formatsIn taken.value with
  | none => .error usageError
  | some formats => .ok ({ draft with formats := formats }, taken.rest)

def applyFormatsFlag : FlagReader := fun draft arguments =>
  if draft.formats ≠ [] then .error usageError
  else do
    let taken ← valueAfterFlag arguments
    takeFormats draft taken

def kHybridFlag : Bytes := ascii "--hybrid"
def kFilesystemOnlyFlag : Bytes := ascii "--fs-only"
def kCarveOnlyFlag : Bytes := ascii "--carve-only"

def modeOf (flag : Bytes) : Option RecoveryMode :=
  if flag = kHybridFlag then some .kHybrid
  else if flag = kFilesystemOnlyFlag then some .kFilesystemOnly
  else if flag = kCarveOnlyFlag then some .kCarveOnly
  else none

def applyModeFlag : FlagReader := fun draft arguments =>
  match modeOf (arguments.headD []) with
  | none => .error usageError
  | some mode =>
      if draft.mode.isSome then .error usageError
      else .ok ({ draft with mode := some mode }, arguments.drop 1)

end Readers

section Tables

def kHelpFlag : Bytes := ascii "--help"

/-- The flags every recovery frontend shares. -/
def sharedFlags : List FlagDescriptor :=
  [{ name := kHelpFlag
     metavar := ascii ""
     help := ascii "print this usage and exit"
     read := none },
   { name := ascii "--source"
     metavar := ascii "<image>"
     help := ascii "the image file or device to recover from"
     read := some (applyPath fun draft value => { draft with source := value }) },
   { name := ascii "--destination"
     metavar := ascii "<directory>"
     help := ascii "the directory recovered files are written to"
     read := some (applyPath fun draft value => { draft with destination := value }) },
   { name := ascii "--session"
     metavar := ascii "<directory>"
     help := ascii "where the run's resumable state lives (default: <destination>/.revenant)"
     read := some (applyPath fun draft value => { draft with session := value }) },
   { name := ascii "--dry-run"
     metavar := ascii ""
     help := ascii "scan and report, but write no recovered files"
     read := some applyDryRun },
   { name := ascii "--list-partitions"
     metavar := ascii ""
     help := ascii "list the partitions on the source and exit"
     read := some applyListPartitions },
   { name := ascii "--partition"
     metavar := ascii "<n>"
     help := ascii "recover only partition <n>, numbered from 1"
     read := some applyPartition },
   { name := ascii "--force-portable"
     metavar := ascii ""
     help := ascii "disable the CPU-specific scanner fast path"
     read := some applyForcePortable },
   { name := ascii "--allow-unverified-destination"
     metavar := ascii ""
     help := ascii ("proceed when the source's physical identity cannot be resolved, " ++
       "having checked yourself that the destination is not on it")
     read := some applyAllowUnverifiedDestination }]

def kFormatsFlag : Bytes := ascii "--formats"

/-- The shared flags and the one a carving frontend adds. -/
def carveFlags : List FlagDescriptor :=
  sharedFlags ++
    [{ name := kFormatsFlag
       metavar := ascii "<ext,ext,...>"
       help := ascii "carve only these formats, comma-separated"
       read := some applyFormatsFlag }]

/-- The shared flags and the modes an undeleting frontend adds. -/
def undeleteFlags : List FlagDescriptor :=
  sharedFlags ++
    [{ name := kHybridFlag
       metavar := ascii ""
       help := ascii "filesystem metadata first, then carve the rest"
       read := some applyModeFlag },
     { name := kFilesystemOnlyFlag
       metavar := ascii ""
       help := ascii "recover only what filesystem metadata names"
       read := some applyModeFlag },
     { name := kCarveOnlyFlag
       metavar := ascii ""
       help := ascii "ignore filesystem metadata and carve only"
       read := some applyModeFlag }]

def flagNamed (flags : List FlagDescriptor) (flag : Bytes) : Option FlagDescriptor :=
  flags.find? fun each => each.name == flag

/-- One flag's two lines: what to type, then what it does. -/
def appendFlag (text : Bytes) (flag : FlagDescriptor) : Bytes :=
  text ++ ascii "  " ++ flag.name ++
    (if flag.takesValue then 0x20 :: flag.metavar else []) ++ ascii "\n      " ++ flag.help ++ [0x0A]

def renderFlagHelp (flags : List FlagDescriptor) : Bytes := flags.foldl appendFlag (ascii "flags:\n")

end Tables

section Reading

/-- One flag, read by whichever descriptor names it. -/
def readOne (draft : OptionDraft) (arguments : Arguments) (flags : List FlagDescriptor) :
    Result (OptionDraft × Arguments) :=
  match flagNamed flags (arguments.headD []) with
  | none => .error usageError
  | some flag =>
      match flag.read with
      | none => .error usageError
      | some read => read draft arguments

/-- One turn of the loop over the arguments. -/
def readRound (flags : List FlagDescriptor) :
    OptionDraft × Arguments → Result OptionDraft ⊕ (OptionDraft × Arguments)
  | (draft, []) => .inl (.ok draft)
  | (draft, argument :: arguments) =>
      match readOne draft (argument :: arguments) flags with
      | .error error => .inl (.error error)
      | .ok next => .inr next

/-- Every flag takes at least itself away. -/
def readFlags (arguments : Arguments) (flags : List FlagDescriptor) : Result OptionDraft :=
  LoopRun.outcomeOf (readRound flags) (arguments.length + 1) ({}, arguments) (.error usageError)

/-- A listing writes nothing, and needs no destination. -/
def withRequiredPaths (draft : OptionDraft) : Result OptionDraft :=
  let writes := draft.action.getD .kRecover = .kRecover
  if draft.source = [] ∨ (writes ∧ draft.destination = []) then .error usageError else .ok draft

def kSessionDirectoryName : Bytes := ascii ".revenant"

/-- `std::filesystem::path::operator/` with a name that is no path of its own. -/
def pathUnder (directory name : Bytes) : Bytes :=
  if directory = [] ∨ directory.getLast? = some 0x2F then directory ++ name
  else directory ++ 0x2F :: name

def sessionOf (draft : OptionDraft) : Bytes :=
  if draft.session ≠ [] then draft.session else pathUnder draft.destination kSessionDirectoryName

def settled (draft : OptionDraft) (defaultMode : RecoveryMode) : RunRequest where
  source := draft.source
  destination := draft.destination
  session := sessionOf draft
  mode := draft.mode.getD defaultMode
  delivery := draft.delivery.getD .kExtract
  action := draft.action.getD .kRecover
  partition := draft.partition.getD RunScope.kWholeSource
  formats := draft.formats
  forcePortable := draft.forcePortable.getD false
  allowUnverifiedDestination := draft.allowUnverifiedDestination.getD false

def readRecoveryOptions (arguments : Arguments) (flags : List FlagDescriptor)
    (defaultMode : RecoveryMode) : Result RunRequest := do
  let draft ← readFlags arguments flags
  let complete ← withRequiredPaths draft
  return settled complete defaultMode

def parseCarveOptions (arguments : Arguments) : Result RunRequest :=
  readRecoveryOptions arguments carveFlags .kCarveOnly

def parseUndeleteOptions (arguments : Arguments) : Result RunRequest :=
  readRecoveryOptions arguments undeleteFlags .kHybrid

end Reading

end Cli
end Revenant
