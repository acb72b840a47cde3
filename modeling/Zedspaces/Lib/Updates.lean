/-
A value that is changed by updates, each on what the one before left. An update may have no meaning on a value; the
updates of a history replay when each of them has one (`replay`). Beside the value one counts what happened since it
was last reset (`since`).
-/
import Mathlib.Tactic.Common

namespace Zedspaces.Lib

variable {ρ υ ε : Type}

/-- The value after the updates, one after the other; none when one of them has no meaning where it comes. -/
def replay (apply : υ → ρ → Option ρ) (r : ρ) (updates : List υ) : Option ρ := updates.foldlM (fun r u => apply u r) r

theorem replay_concat {apply : υ → ρ → Option ρ} {r : ρ} {updates : List υ} {u : υ} :
    replay apply r (updates ++ [u]) = (replay apply r updates).bind (apply u) := by
  simp [replay]

/-- How many entries count since the last that resets, from `n` on when none does. -/
def since (resets counts : ε → Bool) (n : Nat) (log : List ε) : Nat :=
  log.foldl (fun n e => if resets e then 0 else if counts e then n + 1 else n) n

theorem since_concat {resets counts : ε → Bool} {n : Nat} {log : List ε} {e : ε} :
    since resets counts n (log ++ [e]) =
      if resets e then 0 else if counts e then since resets counts n log + 1 else since resets counts n log := by
  rw [since, List.foldl_append]
  rfl

end Zedspaces.Lib
