import Mathlib.Data.List.Nodup
import Mathlib.Data.List.Perm.Basic
import Mathlib.Tactic.Common

/-!
# Draining a worklist that grows while it is drained

Nodes wait on a stack.  A node taken from it offers others; one whose key was
ever offered before is turned away, so no key waits twice.  With finitely many
keys the stack therefore empties, and every node taken has a key of its own.
-/

namespace WorklistWalk

variable {Node Key : Type}

/-- Nodes waiting, the next one first, and every key that was ever accepted. -/
structure Agenda (key : Node → Key) where
  pending : List Node
  visited : List Key
  once : visited.Nodup

namespace Agenda

variable {key : Node → Key}

/-- The agenda of a walk that has taken nothing yet. -/
def start (key : Node → Key) (root : Node) : Agenda key := ⟨[root], [key root], by simp⟩

/-- The agenda once the next node has been taken. -/
def rest (agenda : Agenda key) : Agenda key := { agenda with pending := agenda.pending.tail }

/-- How much longer the stack can last when there are `limit` keys: a node
waiting costs one step, and a key not yet accepted at most two. -/
def remaining (limit : Nat) (agenda : Agenda key) : Nat :=
  2 * (limit - agenda.visited.length) + agenda.pending.length

theorem remaining_rest_lt {limit : Nat} {agenda : Agenda key} (waiting : agenda.pending ≠ []) :
    agenda.rest.remaining limit < agenda.remaining limit := by
  have positive := List.length_pos_iff.mpr waiting
  simp only [remaining, rest, List.length_tail]
  omega

/-- The nodes taken so far and those waiting are exactly the accepted ones. -/
def Accounts (agenda : Agenda key) (taken : List Node) : Prop :=
  ((taken ++ agenda.pending).map key).Perm agenda.visited

theorem accounts_start (root : Node) : (start key root).Accounts [] :=
  List.Perm.refl _

theorem Accounts.rest {agenda : Agenda key} {taken waiting : List Node} {node : Node}
    (accounts : agenda.Accounts taken) (next : agenda.pending = node :: waiting) :
    agenda.rest.Accounts (taken ++ [node]) := by
  simpa [Accounts, Agenda.rest, next] using accounts

/-- No key is taken twice. -/
theorem Accounts.taken_once {agenda : Agenda key} {taken : List Node}
    (accounts : agenda.Accounts taken) : (taken.map key).Nodup := by
  have once : ((taken ++ agenda.pending).map key).Nodup := accounts.nodup_iff.mpr agenda.once
  rw [List.map_append] at once
  exact (List.nodup_append.mp once).1

/-- A key accepted while nothing waits any more was taken. -/
theorem Accounts.mem_taken {agenda : Agenda key} {taken : List Node}
    (accounts : agenda.Accounts taken) (drained : agenda.pending = []) {accepted : Key}
    (visited : accepted ∈ agenda.visited) : accepted ∈ taken.map key := by
  have mem := accounts.mem_iff.mpr visited
  simpa [drained] using mem

section Offer

variable [DecidableEq Key]

/-- Let a node wait, unless its key was accepted before. -/
def offer (agenda : Agenda key) (node : Node) : Agenda key :=
  if known : key node ∈ agenda.visited then agenda
  else ⟨node :: agenda.pending, key node :: agenda.visited, agenda.once.cons known⟩

theorem offer_of_mem {agenda : Agenda key} {node : Node} (known : key node ∈ agenda.visited) :
    agenda.offer node = agenda := by
  simp [offer, known]

theorem mem_visited_offer (agenda : Agenda key) (node : Node) :
    key node ∈ (agenda.offer node).visited := by
  unfold offer
  split
  case isTrue known => exact known
  case isFalse => exact List.mem_cons_self

theorem visited_subset_offer (agenda : Agenda key) (node : Node) :
    agenda.visited ⊆ (agenda.offer node).visited := by
  unfold offer
  split
  case isTrue => exact List.Subset.refl _
  case isFalse => exact List.subset_cons_self _ _

theorem mem_pending_offer {agenda : Agenda key} {node waiting : Node}
    (waits : waiting ∈ (agenda.offer node).pending) :
    waiting ∈ agenda.pending ∨ waiting = node := by
  unfold offer at waits
  split at waits
  case isTrue => exact .inl waits
  case isFalse => exact (List.mem_cons.mp waits).symm

theorem visited_subset_offers (agenda : Agenda key) (nodes : List Node) :
    agenda.visited ⊆ (nodes.foldl offer agenda).visited := by
  induction nodes generalizing agenda with
  | nil => exact List.Subset.refl _
  | cons node nodes ih => exact List.Subset.trans (visited_subset_offer agenda node) (ih _)

theorem mem_visited_offers (agenda : Agenda key) {nodes : List Node} {node : Node}
    (offered : node ∈ nodes) : key node ∈ (nodes.foldl offer agenda).visited := by
  induction nodes generalizing agenda with
  | nil => exact nomatch offered
  | cons first nodes ih =>
      rcases List.mem_cons.mp offered with rfl | later
      · exact visited_subset_offers _ nodes (mem_visited_offer agenda node)
      · exact ih _ later

/-- Of several nodes offered, one that waits afterwards had a key that was new,
both to the agenda and among the nodes offered before it. -/
theorem mem_pending_offers {agenda : Agenda key} {nodes : List Node} {waiting : Node}
    (waits : waiting ∈ (nodes.foldl offer agenda).pending) :
    waiting ∈ agenda.pending ∨ ∃ before after, nodes = before ++ waiting :: after ∧
      key waiting ∉ agenda.visited ∧ key waiting ∉ before.map key := by
  induction nodes generalizing agenda with
  | nil => exact .inl waits
  | cons node nodes ih =>
      rcases ih waits with now | ⟨before, after, rfl, fresh, first⟩
      · by_cases known : key node ∈ agenda.visited
        · rw [offer_of_mem known] at now
          exact .inl now
        · rcases mem_pending_offer now with old | rfl
          · exact .inl old
          · exact .inr ⟨[], nodes, rfl, known, by simp⟩
      · refine .inr ⟨node :: before, after, rfl, fun known => ?_, ?_⟩
        · exact fresh (visited_subset_offer agenda node known)
        · rw [List.map_cons, List.mem_cons, not_or]
          refine ⟨fun same => fresh ?_, first⟩
          rw [same]
          exact mem_visited_offer agenda node

theorem remaining_offer_le {limit : Nat}
    (fits : ∀ keys : List Key, keys.Nodup → keys.length ≤ limit) (agenda : Agenda key)
    (node : Node) : (agenda.offer node).remaining limit ≤ agenda.remaining limit := by
  by_cases known : key node ∈ agenda.visited
  case pos => exact Nat.le_of_eq (by rw [offer_of_mem known])
  case neg =>
      have bound := fits _ (agenda.once.cons known)
      simp only [remaining, offer, known, dite_false, List.length_cons] at bound ⊢
      omega

theorem Accounts.offer {agenda : Agenda key} {taken : List Node} (accounts : agenda.Accounts taken)
    (node : Node) : (agenda.offer node).Accounts taken := by
  by_cases known : key node ∈ agenda.visited
  case pos => rwa [offer_of_mem known]
  case neg =>
      have moved : ((taken ++ node :: agenda.pending).map key).Perm
          (key node :: (taken ++ agenda.pending).map key) := by
        rw [← List.map_cons]
        exact List.perm_middle.map key
      simp only [Agenda.offer, known, dite_false]
      exact moved.trans (accounts.cons _)

end Offer

end Agenda
end WorklistWalk
