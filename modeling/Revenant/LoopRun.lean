import Mathlib.Tactic.Common

/-!
# Loops that a step ends

A step goes on to another state or ends the loop with an outcome.  What a loop comes
to is a relation; running a number of rounds computes it once the number is large
enough, which it is as soon as some measure falls in every round.
-/

namespace LoopRun

variable {State Outcome : Type*}

/-- The outcome of at most so many rounds. -/
def run (step : State → Outcome ⊕ State) : (rounds : Nat) → State → Option Outcome
  | 0, _ => none
  | rounds + 1, state =>
      match step state with
      | .inl outcome => some outcome
      | .inr next => run step rounds next

/-- The loop entered in a state ends with an outcome. -/
inductive Ends (step : State → Outcome ⊕ State) : State → Outcome → Prop
  | last {state : State} {outcome : Outcome} (ended : step state = .inl outcome) :
      Ends step state outcome
  | next {state after : State} {outcome : Outcome} (went : step state = .inr after)
      (ends : Ends step after outcome) : Ends step state outcome

variable {step : State → Outcome ⊕ State}

namespace Ends

theorem unique {state : State} {first second : Outcome} (left : Ends step state first)
    (right : Ends step state second) : first = second := by
  induction left with
  | last ended =>
      cases right with
      | last other => exact Sum.inl.inj (ended.symm.trans other)
      | next went _ => exact nomatch ended.symm.trans went
  | next went _ ih =>
      cases right with
      | last other => exact nomatch other.symm.trans went
      | next other ends =>
          cases Sum.inr.inj (went.symm.trans other)
          exact ih ends

/-- A round that goes on can be skipped. -/
theorem next_iff {state after : State} {outcome : Outcome} (went : step state = .inr after) :
    Ends step state outcome ↔ Ends step after outcome := by
  constructor
  · intro ends
    cases ends with
    | last ended => exact nomatch ended.symm.trans went
    | next other ends =>
        cases Sum.inr.inj (went.symm.trans other)
        exact ends
  · exact next went

theorem last_iff {state : State} {ended outcome : Outcome} (stops : step state = .inl ended) :
    Ends step state outcome ↔ outcome = ended := by
  constructor
  · exact fun ends => ends.unique (last stops)
  · rintro rfl
    exact last stops

/-- What every round keeps holds in the state whose step ends the loop. -/
theorem invariant {Kept : State → Prop} (keeps : ∀ state after, Kept state →
      step state = .inr after → Kept after)
    {state : State} {outcome : Outcome} (kept : Kept state) (ends : Ends step state outcome) :
    ∃ final, Kept final ∧ step final = .inl outcome := by
  induction ends with
  | last ended => exact ⟨_, kept, ended⟩
  | next went _ ih => exact ih (keeps _ _ kept went)

end Ends

theorem ends_of_run {rounds : Nat} {state : State} {outcome : Outcome}
    (ran : run step rounds state = some outcome) : Ends step state outcome := by
  induction rounds generalizing state with
  | zero => cases ran
  | succ rounds ih =>
      rw [run] at ran
      cases went : step state with
      | inl ended =>
          rw [went] at ran
          cases ran
          exact .last went
      | inr after =>
          rw [went] at ran
          exact .next went (ih ran)

/-- A measure that falls in every round that goes on bounds the rounds. -/
theorem run_isSome (measure : State → Nat)
    (falls : ∀ state after, step state = .inr after → measure after < measure state)
    {rounds : Nat} {state : State} (enough : measure state < rounds) :
    (run step rounds state).isSome = true := by
  induction rounds generalizing state with
  | zero => cases enough
  | succ rounds ih =>
      rw [run]
      cases went : step state with
      | inl ended => rfl
      | inr after =>
          have lower := falls state after went
          exact ih (by omega)

/-- The outcome a bounded loop returns, with what it returns should the bound be too
small. -/
def outcomeOf (step : State → Outcome ⊕ State) (rounds : Nat) (state : State)
    (otherwise : Outcome) : Outcome :=
  (run step rounds state).getD otherwise

theorem ends_outcomeOf (measure : State → Nat)
    (falls : ∀ state after, step state = .inr after → measure after < measure state)
    {rounds : Nat} {state : State} (enough : measure state < rounds) (otherwise : Outcome) :
    Ends step state (outcomeOf step rounds state otherwise) := by
  obtain ⟨outcome, ran⟩ := Option.isSome_iff_exists.mp (run_isSome measure falls enough)
  rw [outcomeOf, ran]
  exact ends_of_run ran

end LoopRun
