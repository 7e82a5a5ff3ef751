import Mathlib.Data.List.Nodup
import Mathlib.Logic.Function.Iterate

/-!
# Following a chain of links

A chain is followed link by link until it ends, until it points back at what was met,
or until there is no room for more.  What is gathered is met once each, and it is
exactly what the links lead to before the chain ends or the room does.
-/

namespace FollowedChain

variable {Key : Type} (ends : Key → Bool) (next : Key → Key)

/-- The keys met from `key` on, behind those found, with room for `room` more. -/
def gather [DecidableEq Key] : (room : Nat) → (found : List Key) → (key : Key) → List Key
  | 0, found, _ => found
  | room + 1, found, key =>
      if ends key || found.contains key then found
      else gather room (found ++ [key]) (next key)

/-- The links from `start` lead to `key` in fewer than `room` steps, and the chain
does not end before it. -/
def Reaches (room : Nat) (start key : Key) : Prop :=
  ∃ steps < room, next^[steps] start = key ∧ ∀ step ≤ steps, ends (next^[step] start) = false

variable {ends next}

/-- A chain that meets a link again leads nowhere it has not been. -/
theorem Reaches.before {start key : Key} {met room : Nat}
    (again : ∃ step < met, next^[step] start = next^[met] start)
    (reaches : Reaches ends next room start key) : Reaches ends next met start key := by
  obtain ⟨steps, -, arrives, open_⟩ := reaches
  induction steps using Nat.strongRecOn generalizing key with
  | ind steps ih =>
      rcases Nat.lt_or_ge steps met with early | late
      · exact ⟨steps, early, arrives, open_⟩
      · obtain ⟨first, sooner, same⟩ := again
        apply ih (steps - met + first) (by omega)
        · rw [Function.iterate_add_apply, same, ← Function.iterate_add_apply,
            Nat.sub_add_cancel late]
          exact arrives
        · exact fun step within => open_ step (by omega)

/-- What the first `met` steps come to is what they lead to. -/
theorem mem_met {start : Key} {met : Nat}
    (open_ : ∀ step < met, ends (next^[step] start) = false) (key : Key) :
    key ∈ (List.range met).map (fun step => next^[step] start) ↔
      Reaches ends next met start key := by
  rw [List.mem_map]
  constructor
  · rintro ⟨steps, early, arrives⟩
    have early := List.mem_range.mp early
    exact ⟨steps, early, arrives, fun step within => open_ step (by omega)⟩
  · rintro ⟨steps, early, arrives, -⟩
    exact ⟨steps, List.mem_range.mpr early, arrives⟩

theorem Reaches.mono {start key : Key} {met room : Nat} (wider : met ≤ room)
    (reaches : Reaches ends next met start key) : Reaches ends next room start key := by
  obtain ⟨steps, early, rest⟩ := reaches
  exact ⟨steps, by omega, rest⟩

variable [DecidableEq Key]

theorem nodup_gather (room : Nat) {found : List Key} (once : found.Nodup) (key : Key) :
    (gather ends next room found key).Nodup := by
  induction room generalizing found key with
  | zero => exact once
  | succ room ih =>
      rw [gather]
      split
      case isTrue => exact once
      case isFalse more =>
          apply ih
          rw [Bool.or_eq_true, List.contains_iff_mem, not_or] at more
          exact List.Nodup.append once (List.nodup_singleton key)
            (List.disjoint_singleton.mpr more.2)

theorem length_gather_le (room : Nat) (found : List Key) (key : Key) :
    (gather ends next room found key).length ≤ found.length + room := by
  induction room generalizing found key with
  | zero => exact Nat.le_refl _
  | succ room ih =>
      rw [gather]
      split
      case isTrue => omega
      case isFalse =>
          have later := ih (found ++ [key]) (next key)
          rw [List.length_append, List.length_singleton] at later
          omega

theorem mem_gather_from {start : Key} (room met : Nat)
    (open_ : ∀ step < met, ends (next^[step] start) = false) (key : Key) :
    key ∈ gather ends next room ((List.range met).map fun step => next^[step] start)
        (next^[met] start) ↔
      Reaches ends next (met + room) start key := by
  induction room generalizing met with
  | zero => exact mem_met open_ key
  | succ room ih =>
      rw [gather]
      split
      case isTrue closed =>
          rw [mem_met open_ key]
          refine ⟨Reaches.mono (by omega), fun reaches => ?_⟩
          rw [Bool.or_eq_true, List.contains_iff_mem] at closed
          rcases closed with ended | again
          · obtain ⟨steps, -, arrives, passed⟩ := reaches
            rcases Nat.lt_or_ge steps met with early | late
            · exact ⟨steps, early, arrives, passed⟩
            · exact nomatch ended.symm.trans (passed met late)
          · obtain ⟨step, early, same⟩ := List.mem_map.mp again
            exact reaches.before ⟨step, List.mem_range.mp early, same⟩
      case isFalse more =>
          rw [Bool.or_eq_true, not_or, Bool.not_eq_true] at more
          have later : ∀ step < met + 1, ends (next^[step] start) = false := by
            intro step within
            rcases Nat.lt_succ_iff_lt_or_eq.mp within with early | rfl
            · exact open_ step early
            · exact more.1
          have longer := ih (met + 1) later
          rw [List.range_succ, List.map_append, List.map_singleton,
            Function.iterate_succ_apply'] at longer
          rw [longer, Nat.add_right_comm, Nat.add_assoc]

/-- What is gathered is what the links lead to. -/
theorem mem_gather {start key : Key} {room : Nat} :
    key ∈ gather ends next room [] start ↔ Reaches ends next room start key := by
  have none_ : ∀ step < 0, ends (next^[step] start) = false :=
    fun _ early => absurd early (Nat.not_lt_zero _)
  have whole := mem_gather_from room 0 none_ key
  rwa [Nat.zero_add] at whole

end FollowedChain
