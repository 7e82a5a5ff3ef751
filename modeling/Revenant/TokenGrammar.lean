import Revenant.LoopRun

/-!
# Reading items off the front of a list

A loop takes one item at a time off the front of what is left, until nothing is left or an
item is refused.  When every item has a text of its own and only such texts are read, the
loop takes exactly the texts of lists of items, and does to its state what the items do
one after another.
-/

namespace LoopRun

/-- How one item is read, and which items there are to read. -/
structure TokenGrammar (Token State Item Error : Type*) where
  read : State → List Token → Except Error (State × List Token)
  Known : Item → Prop
  text : Item → List Token
  apply : State → Item → Option State
  refusal : Error
  reads : ∀ {item}, Known item → ∀ state rest, read state (text item ++ rest) =
    match apply state item with
    | some after => .ok (after, rest)
    | none => .error refusal
  only : ∀ {state tokens after rest}, tokens ≠ [] → read state tokens = .ok (after, rest) →
    ∃ item, Known item ∧ tokens = text item ++ rest ∧ apply state item = some after
  long : ∀ {item}, Known item → text item ≠ []

namespace TokenGrammar

variable {Token State Item Error : Type*} (grammar : TokenGrammar Token State Item Error)

/-- One turn of the loop. -/
def round : State × List Token → Except Error State ⊕ (State × List Token)
  | (state, []) => .inl (.ok state)
  | (state, token :: tokens) =>
      match grammar.read state (token :: tokens) with
      | .error error => .inl (.error error)
      | .ok next => .inr next

/-- The items done one after another, unless one of them is refused. -/
def applyAll (state : State) (items : List Item) : Option State := items.foldlM grammar.apply state

/-- What a list of items is written as. -/
def textOf (items : List Item) : List Token := items.flatMap grammar.text

/-- What the items come to, as the loop returns it. -/
def outcomeOf (state : State) (items : List Item) : Except Error State :=
  match grammar.applyAll state items with
  | some final => .ok final
  | none => .error grammar.refusal

variable {grammar}

theorem round_text {item : Item} (known : grammar.Known item) (state : State) (rest : List Token) :
    grammar.round (state, grammar.text item ++ rest) =
      match grammar.apply state item with
      | some after => .inr (after, rest)
      | none => .inl (.error grammar.refusal) := by
  have reads := grammar.reads known state rest
  obtain ⟨token, tokens, same⟩ := List.exists_cons_of_ne_nil
    (List.append_ne_nil_of_left_ne_nil (grammar.long known) rest)
  rw [same] at reads ⊢
  simp only [round, reads]
  cases grammar.apply state item <;> rfl

/-- The loop over the text of known items ends with what they come to. -/
theorem ends_textOf {items : List Item} (known : ∀ item ∈ items, grammar.Known item) (state : State) :
    Ends grammar.round (state, grammar.textOf items) (grammar.outcomeOf state items) := by
  induction items generalizing state with
  | nil => exact .last rfl
  | cons item items ih =>
      have here := round_text (known item List.mem_cons_self) state (grammar.textOf items)
      have split : grammar.textOf (item :: items) = grammar.text item ++ grammar.textOf items :=
        List.flatMap_cons
      rw [split]
      cases applied : grammar.apply state item with
      | none =>
          rw [applied] at here
          have refused : grammar.outcomeOf state (item :: items) = .error grammar.refusal := by
            simp only [outcomeOf, applyAll, List.foldlM_cons, applied, Option.bind_eq_bind,
              Option.bind_none]
          rw [refused]
          exact .last here
      | some after =>
          rw [applied] at here
          have goes : grammar.outcomeOf state (item :: items) = grammar.outcomeOf after items := by
            simp only [outcomeOf, applyAll, List.foldlM_cons, applied, Option.bind_eq_bind,
              Option.bind_some]
          rw [goes]
          exact .next here (ih (fun other member => known other (List.mem_cons_of_mem _ member)) after)

/-- The loop succeeds on nothing but texts of items. -/
theorem items_of_ends {held : State × List Token} {outcome : Except Error State}
    (ends : Ends grammar.round held outcome) {final : State} (succeeded : outcome = .ok final) :
    ∃ items, (∀ item ∈ items, grammar.Known item) ∧ held.2 = grammar.textOf items ∧
      grammar.applyAll held.1 items = some final := by
  induction ends with
  | @last held outcome ended =>
      obtain ⟨state, tokens⟩ := held
      cases tokens with
      | nil =>
          cases ended
          cases succeeded
          exact ⟨[], List.forall_mem_nil _, rfl, rfl⟩
      | cons token tokens =>
          simp only [round] at ended
          split at ended
          case h_1 =>
              cases ended
              cases succeeded
          case h_2 => cases ended
  | @next held after outcome went _ ih =>
      obtain ⟨state, tokens⟩ := held
      cases tokens with
      | nil => cases went
      | cons token tokens =>
          simp only [round] at went
          split at went
          case h_1 => cases went
          case h_2 next read =>
              cases went
              obtain ⟨item, known, text, applied⟩ := grammar.only (List.cons_ne_nil _ _) read
              obtain ⟨items, others, rest, done⟩ := ih succeeded
              refine ⟨item :: items, ?_, ?_, ?_⟩
              · intro other member
                rcases List.mem_cons.mp member with rfl | later
                · exact known
                · exact others other later
              · rw [text, rest]
                exact List.flatMap_cons.symm
              · simp only [applyAll, List.foldlM_cons, applied, Option.bind_eq_bind, Option.bind_some]
                exact done

/-- Every item takes some tokens away. -/
theorem round_falls {held after : State × List Token} (went : grammar.round held = .inr after) :
    after.2.length < held.2.length := by
  obtain ⟨state, tokens⟩ := held
  cases tokens with
  | nil => cases went
  | cons token tokens =>
      simp only [round] at went
      split at went
      case h_1 => cases went
      case h_2 next read =>
          cases went
          obtain ⟨item, known, text, -⟩ := grammar.only (List.cons_ne_nil _ _) read
          have some_ := List.length_pos_iff.mpr (grammar.long known)
          rw [text, List.length_append]
          omega

variable (grammar) in
/-- As many turns as there are tokens, and one more, are enough. -/
def readAll (state : State) (tokens : List Token) : Except Error State :=
  LoopRun.outcomeOf grammar.round (tokens.length + 1) (state, tokens) (.error grammar.refusal)

theorem ends_readAll (state : State) (tokens : List Token) :
    Ends grammar.round (state, tokens) (grammar.readAll state tokens) := by
  apply ends_outcomeOf fun held => held.2.length
  case falls => exact fun _ _ => round_falls
  case enough => exact Nat.lt_succ_self _

/-- What is read of a text of known items is what they come to. -/
theorem readAll_textOf {items : List Item} (known : ∀ item ∈ items, grammar.Known item) (state : State) :
    grammar.readAll state (grammar.textOf items) = grammar.outcomeOf state items :=
  (ends_readAll state _).unique (ends_textOf known state)

theorem readAll_eq_ok_iff {state final : State} {tokens : List Token} :
    grammar.readAll state tokens = .ok final ↔
      ∃ items, (∀ item ∈ items, grammar.Known item) ∧ tokens = grammar.textOf items ∧
        grammar.applyAll state items = some final := by
  constructor
  · exact fun read => items_of_ends (ends_readAll state tokens) read
  · rintro ⟨items, known, rfl, done⟩
    rw [readAll_textOf known]
    simp only [outcomeOf, done]

end TokenGrammar

end LoopRun
