import Mathlib.Logic.Relation
import Mathlib.Tactic.Common

/-!
# Processes that may crash between any two effects

A process is a list of effects on a store.  It may be cut off at any point, and
the store is then left as a crash leaves it; another process starts from there.
A store that is fit to be found at every point of every process is fit to be
found after any sequence of crashes.
-/

namespace Revenant

/-- What effects do to a store, which stores there is room for, and what a crash
may leave of one. -/
structure CrashModel (Store Effect : Type*) where
  perform : Effect → Store → Store
  Room : Store → Prop
  Tears : Store → Store → Prop

/-- What a process has left to do, and what it will have concluded. -/
structure Process (Effect Outcome : Type*) where
  effects : List Effect
  outcome : Outcome

namespace CrashModel

variable {Store Effect Outcome : Type*} (model : CrashModel Store Effect)
  (Starts : Store → Process Effect Outcome → Prop)

/-- A store, and the process running on it if there is one. -/
abbrev System (Store Effect Outcome : Type*) := Store × Option (Process Effect Outcome)

inductive Step : System Store Effect Outcome → System Store Effect Outcome → Prop
  | start {store : Store} {process : Process Effect Outcome} (may : Starts store process) :
      Step (store, none) (store, some process)
  | perform {store : Store} {effect : Effect} {effects : List Effect} {outcome : Outcome}
      (room : model.Room (model.perform effect store)) :
      Step (store, some ⟨effect :: effects, outcome⟩)
        (model.perform effect store, some ⟨effects, outcome⟩)
  | crash {store torn : Store} {process : Process Effect Outcome}
      (tears : model.Tears store torn) :
      Step (store, some process) (torn, none)

/-- Everything any sequence of starts, effects and crashes leads to. -/
def Reaches (initial : Store) (system : System Store Effect Outcome) : Prop :=
  Relation.ReflTransGen (model.Step Starts) (initial, none) system

/-- Effects performed one after the other, with room for each. -/
inductive Performs : List Effect → Store → Store → Prop
  | nil {store : Store} : Performs [] store store
  | cons {store final : Store} {effect : Effect} {effects : List Effect}
      (room : model.Room (model.perform effect store))
      (rest : Performs effects (model.perform effect store) final) :
      Performs (effect :: effects) store final

section Rules

variable (Durable : Store → Prop)

/-- Wherever these effects are cut off the store is durable, and after the last
of them `Post` holds. -/
def Safe (Post : Store → Prop) : List Effect → Store → Prop
  | [], store => Durable store ∧ Post store
  | effect :: effects, store =>
      Durable store ∧
        (model.Room (model.perform effect store) →
          Safe Post effects (model.perform effect store))

variable {model Durable} {Post Next : Store → Prop}

theorem Safe.durable {effects : List Effect} {store : Store}
    (safe : model.Safe Durable Post effects store) : Durable store := by
  cases effects with
  | nil => exact safe.1
  | cons effect effects => exact safe.1

theorem Safe.append {first second : List Effect} {store : Store}
    (safe : model.Safe Durable Post first store)
    (next : ∀ later, Durable later → Post later → model.Safe Durable Next second later) :
    model.Safe Durable Next (first ++ second) store := by
  induction first generalizing store with
  | nil => exact next store safe.1 safe.2
  | cons effect first ih => exact ⟨safe.1, fun room => ih (safe.2 room)⟩

theorem Safe.weaken {effects : List Effect} {store : Store}
    (safe : model.Safe Durable Post effects store) (weaker : ∀ later, Post later → Next later) :
    model.Safe Durable Next effects store := by
  induction effects generalizing store with
  | nil => exact ⟨safe.1, weaker store safe.2⟩
  | cons effect effects ih => exact ⟨safe.1, fun room => ih (safe.2 room)⟩

theorem Safe.performs {effects : List Effect} {store final : Store}
    (safe : model.Safe Durable Post effects store)
    (performs : model.Performs effects store final) : Post final := by
  induction performs with
  | nil => exact safe.2
  | cons room _ ih => exact ih (safe.2 room)

/-- Effects after whose last `Post` holds, with nothing asked of the stores before. -/
theorem safe_of_performs {effects : List Effect} {store : Store}
    (post : ∀ final, model.Performs effects store final → Post final) :
    model.Safe (fun _ => True) Post effects store := by
  induction effects generalizing store with
  | nil => exact ⟨trivial, post store .nil⟩
  | cons effect effects ih =>
      exact ⟨trivial, fun room => ih fun final rest => post final (.cons room rest)⟩

variable {Starts} {Rest : Store → Prop} {Post : Outcome → Store → Prop}

/-- What holds of a system throughout: a store at rest is fit to start from, and
a running process is safe from here on. -/
def Kept (model : CrashModel Store Effect) (Rest Durable : Store → Prop)
    (Post : Outcome → Store → Prop) : System Store Effect Outcome → Prop
  | (store, none) => Rest store
  | (store, some process) => model.Safe Durable (Post process.outcome) process.effects store

theorem kept_step
    (torn : ∀ store left, Durable store → model.Tears store left → Rest left)
    (started : ∀ store process, Rest store → Starts store process →
      model.Safe Durable (Post process.outcome) process.effects store)
    {before after : System Store Effect Outcome} (kept : Kept model Rest Durable Post before)
    (step : model.Step Starts before after) : Kept model Rest Durable Post after := by
  cases step with
  | start may => exact started _ _ kept may
  | perform room => exact kept.2 room
  | crash tears => exact torn _ _ kept.durable tears

/-- Nothing that crashes and restarts lead to breaks what every process keeps. -/
theorem kept_of_reaches
    (torn : ∀ store left, Durable store → model.Tears store left → Rest left)
    (started : ∀ store process, Rest store → Starts store process →
      model.Safe Durable (Post process.outcome) process.effects store)
    {initial : Store} (rest : Rest initial) {system : System Store Effect Outcome}
    (reaches : model.Reaches Starts initial system) : Kept model Rest Durable Post system := by
  induction reaches with
  | refl => exact rest
  | tail _ step ih => exact kept_step torn started ih step

/-- A process that is performed to its end leaves the system there. -/
theorem reaches_end {initial store final : Store} {effects : List Effect} {outcome : Outcome}
    (reached : model.Reaches Starts initial (store, some ⟨effects, outcome⟩))
    (performs : model.Performs effects store final) :
    model.Reaches Starts initial (final, some ⟨[], outcome⟩) := by
  induction performs with
  | nil => exact reached
  | cons room _ ih => exact ih (reached.tail (.perform room))

end Rules

end CrashModel
end Revenant
