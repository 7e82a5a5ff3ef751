import Mathlib.Tactic.Common

/-!
# Computations that consult an oracle

A computation asks questions one after the other, and each answer may depend on
how many were asked before.  The answers given so far are the state, newest
first, so that what happened along the way stays visible at the end.

Two judgements carry the reasoning: what a computation returns whatever it is
told, and what a fallible one returns whenever it succeeds.
-/

namespace Consulting

/-- A computation that cannot fail on its own. -/
abbrev Asking (Answer : Type) := StateM (List Answer)

/-- A computation that may stop with an error. -/
abbrev Attempting (Answer Failure : Type) := ExceptT Failure (Asking Answer)

variable {Question Answer Failure Value Next : Type}

/-- Put one question.  A failed answer is the failure of the attempt. -/
def ask (oracle : Nat → Question → Except Failure Answer) (question : Question) :
    Attempting (Except Failure Answer) Failure Answer :=
  fun log => (oracle log.length question, oracle log.length question :: log)

/-- What is already known needs no question. -/
def settled (result : Except Failure Value) : Attempting Answer Failure Value :=
  fun log => (result, log)

section Always

/-- Whatever the answers are, the value returned has the property. -/
def Always (asking : Asking Answer Value) (Good : Value → Prop) : Prop :=
  ∀ log, Good (asking log).1

variable {asking : Asking Answer Value} {Good Better : Value → Prop} {GoodNext : Next → Prop}

theorem Always.mono (always : Always asking Good) (weaker : ∀ value, Good value → Better value) :
    Always asking Better :=
  fun log => weaker _ (always log)

theorem Always.trivial : Always asking fun _ => True :=
  fun _ => True.intro

theorem Always.pure {value : Value} (good : Good value) :
    Always (pure value : Asking Answer Value) Good :=
  fun _ => good

theorem Always.bind {next : Value → Asking Answer Next} (first : Always asking Good)
    (then_ : ∀ value, Good value → Always (next value) GoodNext) :
    Always (asking >>= next) GoodNext :=
  fun log => then_ _ (first log) _

theorem Always.and (first : Always asking Good) (second : Always asking Better) :
    Always asking fun value => Good value ∧ Better value :=
  fun log => ⟨first log, second log⟩

end Always

section Yields

/-- Whatever the answers are, a value returned has the property. -/
def Yields (attempt : Attempting Answer Failure Value) (Good : Value → Prop) : Prop :=
  ∀ log value, (attempt log).1 = .ok value → Good value

variable {attempt : Attempting Answer Failure Value} {Good Better : Value → Prop}
  {GoodNext : Next → Prop}

theorem Yields.mono (yields : Yields attempt Good) (weaker : ∀ value, Good value → Better value) :
    Yields attempt Better :=
  fun log value found => weaker _ (yields log value found)

theorem Yields.trivial : Yields attempt fun _ => True :=
  fun _ _ _ => True.intro

/-- A value returned is one the attempt does return, some time. -/
theorem Yields.happens : Yields attempt fun value => ∃ log, (attempt log).1 = .ok value :=
  fun log _ found => ⟨log, found⟩

theorem Yields.pure {value : Value} (good : Good value) :
    Yields (pure value : Attempting Answer Failure Value) Good := by
  intro log found same
  cases same
  exact good

theorem Yields.throw {failure : Failure} :
    Yields (throw failure : Attempting Answer Failure Value) Good := by
  intro log found same
  cases same

theorem Yields.settled {result : Except Failure Value}
    (good : ∀ value, result = .ok value → Good value) :
    Yields (settled result : Attempting Answer Failure Value) Good :=
  fun _ value found => good value found

theorem Yields.bind {next : Value → Attempting Answer Failure Next} (first : Yields attempt Good)
    (then_ : ∀ value, Good value → Yields (next value) GoodNext) :
    Yields (attempt >>= next) GoodNext := by
  intro log result found
  simp only [Bind.bind, ExceptT.bind, ExceptT.mk, StateT.bind] at found
  rcases told : attempt log with ⟨answer, later⟩
  rw [told] at found
  cases answer with
  | error failure => cases found
  | ok value =>
      have good : Good value := first log value (by rw [told])
      exact then_ value good later result found

/-- A rejection guards what follows it. -/
theorem Yields.reject {rejected : Prop} [Decidable rejected] {failure : Failure}
    (rest : ¬ rejected → Yields attempt Good) :
    Yields (if rejected then MonadExcept.throw failure else attempt) Good := by
  split
  case isTrue => exact Yields.throw
  case isFalse accepted => exact rest accepted

/-- An attempt whose outcome is looked at, rather than passed on. -/
theorem Yields.run (yields : Yields attempt Good) :
    Always attempt.run fun outcome => ∀ value, outcome = .ok value → Good value :=
  fun log value found => yields log value found

end Yields

section Quiet

/-- No failure the attempt can end with has the property. -/
def Spares (attempt : Attempting Answer Failure Value) (Bad : Failure → Prop) : Prop :=
  ∀ log failure, (attempt log).1 = .error failure → ¬ Bad failure

variable {attempt : Attempting Answer Failure Value} {Bad : Failure → Prop}

theorem Spares.pure {value : Value} :
    Spares (pure value : Attempting Answer Failure Value) Bad := by
  intro log failure same
  cases same

theorem Spares.throw {failure : Failure} (harmless : ¬ Bad failure) :
    Spares (throw failure : Attempting Answer Failure Value) Bad := by
  intro log other same
  cases same
  exact harmless

theorem Spares.reject {rejected : Prop} [Decidable rejected] {failure : Failure}
    (harmless : rejected → ¬ Bad failure) (rest : ¬ rejected → Spares attempt Bad) :
    Spares (if rejected then MonadExcept.throw failure else attempt) Bad := by
  split
  case isTrue holds => exact Spares.throw (harmless holds)
  case isFalse accepted => exact rest accepted

theorem Spares.settled {result : Except Failure Value}
    (harmless : ∀ failure, result = .error failure → ¬ Bad failure) :
    Spares (settled result : Attempting Answer Failure Value) Bad :=
  fun _ failure found => harmless failure found

theorem Spares.bind {Good : Value → Prop} {next : Value → Attempting Answer Failure Next}
    (first : Spares attempt Bad) (yields : Yields attempt Good)
    (then_ : ∀ value, Good value → Spares (next value) Bad) : Spares (attempt >>= next) Bad := by
  intro log failure found
  simp only [Bind.bind, ExceptT.bind, ExceptT.mk, StateT.bind] at found
  rcases told : attempt log with ⟨answer, later⟩
  rw [told] at found
  cases answer with
  | error first_ =>
      cases found
      exact first log failure (by rw [told])
  | ok value =>
      have good : Good value := yields log value (by rw [told])
      exact then_ value good later failure found

end Quiet

section Steady

/-- Whatever was asked before, the attempt gives this value. -/
def Gives (attempt : Attempting Answer Failure Value) (value : Value) : Prop :=
  ∀ log, (attempt log).1 = .ok value

variable {attempt : Attempting Answer Failure Value} {value : Value}

theorem Gives.pure : Gives (pure value : Attempting Answer Failure Value) value :=
  fun _ => rfl

theorem Gives.settled {result : Except Failure Value} (same : result = .ok value) :
    Gives (settled result : Attempting Answer Failure Value) value :=
  fun _ => same

theorem Gives.bind {next : Value → Attempting Answer Failure Next} {result : Next}
    (first : Gives attempt value) (then_ : Gives (next value) result) :
    Gives (attempt >>= next) result := by
  intro log
  simp only [Bind.bind, ExceptT.bind, ExceptT.mk, StateT.bind]
  have told := first log
  rcases asked : attempt log with ⟨answer, later⟩
  rw [asked] at told
  dsimp only at told
  subst told
  exact then_ later

theorem Gives.yields (gives : Gives attempt value) : Yields attempt fun found => found = value := by
  intro log found same
  exact Except.ok.inj (same.symm.trans (gives log))

theorem Gives.spares {Bad : Failure → Prop} (gives : Gives attempt value) : Spares attempt Bad := by
  intro log failure found
  exact nomatch found.symm.trans (gives log)

end Steady

section Settling

/-- Whatever was asked before, the attempt ends in this outcome. -/
def Settles (attempt : Attempting Answer Failure Value) (outcome : Except Failure Value) : Prop :=
  ∀ log, (attempt log).1 = outcome

variable {attempt : Attempting Answer Failure Value} {outcome : Except Failure Value}

theorem Settles.settled {result : Except Failure Value} :
    Settles (settled result : Attempting Answer Failure Value) result :=
  fun _ => rfl

theorem Settles.bind {next : Value → Attempting Answer Failure Next}
    {results : Value → Except Failure Next} (first : Settles attempt outcome)
    (then_ : ∀ value, outcome = .ok value → Settles (next value) (results value)) :
    Settles (attempt >>= next) (outcome >>= results) := by
  intro log
  simp only [Bind.bind, ExceptT.bind, ExceptT.mk, StateT.bind]
  have told := first log
  rcases asked : attempt log with ⟨answer, later⟩
  rw [asked] at told
  dsimp only at told
  subst told
  cases answer with
  | error failure => rfl
  | ok value => exact then_ value rfl later

/-- An attempt whose outcome is looked at, rather than passed on. -/
theorem Settles.run (settles : Settles attempt outcome) :
    Always attempt.run fun found => found = outcome :=
  settles

end Settling

section Relaying

/-- A bad failure among the answers is what the attempt ends with. -/
def Relays (attempt : Attempting (Except Failure Answer) Failure Value) (Bad : Failure → Prop) :
    Prop :=
  ∀ log, ∃ heard, (attempt log).2 = heard ++ log ∧
    ∀ failure, .error failure ∈ heard → Bad failure → (attempt log).1 = .error failure

variable {attempt : Attempting (Except Failure Answer) Failure Value} {Bad : Failure → Prop}

theorem Relays.ask {oracle : Nat → Question → Except Failure Answer} {question : Question} :
    Relays (ask oracle question) Bad := by
  intro log
  refine ⟨[oracle log.length question], rfl, fun failure heard _ => ?_⟩
  exact (List.mem_singleton.mp heard).symm

theorem Relays.settled {result : Except Failure Value} :
    Relays (settled result : Attempting (Except Failure Answer) Failure Value) Bad :=
  fun _ => ⟨[], rfl, fun _ heard => nomatch heard⟩

theorem Relays.pure {value : Value} :
    Relays (pure value : Attempting (Except Failure Answer) Failure Value) Bad :=
  fun _ => ⟨[], rfl, fun _ heard => nomatch heard⟩

theorem Relays.throw {failure : Failure} :
    Relays (throw failure : Attempting (Except Failure Answer) Failure Value) Bad :=
  fun _ => ⟨[], rfl, fun _ heard => nomatch heard⟩

theorem Relays.reject {rejected : Prop} [Decidable rejected] {failure : Failure}
    (rest : Relays attempt Bad) :
    Relays (if rejected then MonadExcept.throw failure else attempt) Bad := by
  split
  case isTrue => exact Relays.throw
  case isFalse => exact rest

theorem Relays.bind {next : Value → Attempting (Except Failure Answer) Failure Next}
    (first : Relays attempt Bad) (then_ : ∀ value, Relays (next value) Bad) :
    Relays (attempt >>= next) Bad := by
  intro log
  obtain ⟨heard, later, relayed⟩ := first log
  simp only [Bind.bind, ExceptT.bind, ExceptT.mk, StateT.bind]
  rcases told : attempt log with ⟨outcome, after⟩
  rw [told] at later relayed
  obtain rfl : after = heard ++ log := later
  cases outcome with
  | error failure =>
      refine ⟨heard, rfl, fun other member bad => ?_⟩
      have same := relayed other member bad
      cases same
      rfl
  | ok value =>
      obtain ⟨more, last, relayedMore⟩ := then_ value (heard ++ log)
      refine ⟨more ++ heard, ?_, fun other member bad => ?_⟩
      · rw [List.append_assoc]
        exact last
      · rcases List.mem_append.mp member with new | old
        · exact relayedMore other new bad
        · exact nomatch relayed other old bad

end Relaying

end Consulting
