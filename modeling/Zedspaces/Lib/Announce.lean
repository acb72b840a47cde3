/-
A state that is updated in one step and announced in a later one. An update takes the next number and owes the
announcement of what the state shows then; a board holds the latest announcement. The board is current (`Current`) when
the last update that is still owed shows the state as it is, and the board itself does when nothing is owed. Updates keep
it so (`Current.update`), and so does an announcement that no older one is owed before (`Current.announce`).
-/
import Mathlib.Tactic.Common
import Mathlib.Order.Basic

namespace Zedspaces.Lib

variable {β : Type*} {owed owed' : Nat → β → Prop} {board view view' v : β} {next k : Nat}

/-- `owed k v`: the update number `k` has still to announce `v`; `next` is the number of the next update. -/
structure Current (owed : Nat → β → Prop) (board view : β) (next : Nat) : Prop where
  lt : ∀ k v, owed k v → k < next
  latest : ∀ k v, owed k v → (∀ k' v', owed k' v' → k' ≤ k) → v = view
  settled : (∀ k v, ¬ owed k v) → board = view

namespace Current

theorem init (b : β) : Current (fun _ _ => False) b b 0 where
  lt _ _ h := h.elim
  latest _ _ h := h.elim
  settled _ := rfl

/-- Nothing changes that shows. -/
theorem congr (h : Current owed board view next) (ho : ∀ k v, owed' k v ↔ owed k v) : Current owed' board view next where
  lt k v hk := h.lt k v ((ho k v).1 hk)
  latest k v hk hmax := h.latest k v ((ho k v).1 hk) fun k' v' hk' => hmax k' v' ((ho k' v').2 hk')
  settled hnone := h.settled fun k v hk => hnone k v ((ho k v).2 hk)

/-- An update owes what the state shows after it. -/
theorem update (h : Current owed board view next) (ho : ∀ k v, owed' k v ↔ (k = next ∧ v = view') ∨ owed k v) :
    Current owed' board view' (next + 1) where
  lt k v hk := by
    rcases (ho k v).1 hk with ⟨rfl, -⟩ | hk
    · omega
    · have := h.lt k v hk
      omega
  latest k v hk hmax := by
    have hnext : next ≤ k := hmax next view' ((ho next view').2 (.inl ⟨rfl, rfl⟩))
    rcases (ho k v).1 hk with ⟨-, rfl⟩ | hk
    · rfl
    · have := h.lt k v hk
      omega
  settled hnone := absurd ((ho next view').2 (.inl ⟨rfl, rfl⟩)) (hnone next view')

/-- The oldest announcement owed is made. -/
theorem announce (h : Current owed board view next) (hk : owed k v) (holdest : ∀ k' v', owed k' v' → k ≤ k')
    (hsub : ∀ k' v', owed' k' v' → owed k' v') (hrest : ∀ k' v', owed k' v' → owed' k' v' ∨ k' = k) :
    Current owed' v view next where
  lt k' v' hk' := h.lt k' v' (hsub k' v' hk')
  latest k' v' hk' hmax := by
    refine h.latest k' v' (hsub k' v' hk') fun j w hj => ?_
    rcases hrest j w hj with hj | rfl
    · exact hmax j w hj
    · exact holdest k' v' (hsub k' v' hk')
  settled hnone := by
    refine h.latest k v hk fun j w hj => ?_
    rcases hrest j w hj with hj | rfl
    · exact absurd hj (hnone j w)
    · exact Nat.le_refl j

end Current

end Zedspaces.Lib
