/-
What a window that moves with time keeps of a history. What has left the window does not come back, so a history that
is pruned again and again, from its front or throughout, shows the same within the window as the whole history.
-/
import Mathlib.Order.Basic
import Mathlib.Data.List.Pairwise

namespace Zedspaces.Lib

variable {τ : Type*} [Preorder τ] {fresh : τ → τ → Bool} {now later : τ} {history : List τ}

/-- `fresh now hit`: what happened at `hit` is within the window at `now`. -/
structure Moves (fresh : τ → τ → Bool) : Prop where
  later : ∀ {now later hit}, now ≤ later → fresh later hit = true → fresh now hit = true
  newer : ∀ {now hit newer}, hit ≤ newer → fresh now hit = true → fresh now newer = true

theorem filter_fresh_filter (hmoves : Moves fresh) (hle : now ≤ later) :
    (history.filter (fresh now)).filter (fresh later) = history.filter (fresh later) := by
  rw [List.filter_filter]
  refine List.filter_congr fun hit _ => ?_
  cases hlater : fresh later hit with
  | false => rfl
  | true => exact hmoves.later hle hlater

/-- Of a history in order, what has left the window stands in front. -/
theorem dropWhile_eq_filter (hmoves : Moves fresh) (horder : history.Pairwise (· ≤ ·)) (now : τ) :
    history.dropWhile (fun hit => !fresh now hit) = history.filter (fresh now) := by
  induction history with
  | nil => rfl
  | cons hit history ih =>
    obtain ⟨hle, horder⟩ := List.pairwise_cons.1 horder
    cases hfresh : fresh now hit with
    | false =>
      rw [List.dropWhile_cons_of_pos (by rw [hfresh]; rfl), List.filter_cons_of_neg (by rw [hfresh]; exact Bool.noConfusion)]
      exact ih horder
    | true =>
      have hall : ∀ newer ∈ history, fresh now newer = true := fun newer hmem => hmoves.newer (hle newer hmem) hfresh
      rw [List.dropWhile_cons_of_neg (by rw [hfresh]; exact Bool.noConfusion), List.filter_cons_of_pos hfresh,
        List.filter_eq_self.2 hall]

end Zedspaces.Lib
