/-
Fallible computations: what it takes for a chain of them to succeed.
-/
import Mathlib.Tactic.Common

namespace Zedspaces.Lib

variable {α β ε ε' : Type}

/-- A chain succeeds where each part does. -/
theorem bind_ok {x : Except ε α} {f : α → Except ε β} {b : β} :
    (x >>= f) = .ok b ↔ ∃ a, x = .ok a ∧ f a = .ok b := by
  cases x with
  | error err =>
    constructor
    · rintro ⟨⟩
    · rintro ⟨_, ⟨⟩, -⟩
  | ok a =>
    constructor
    · exact fun h => ⟨a, rfl, h⟩
    · rintro ⟨_, ⟨⟩, h⟩
      exact h

theorem bind_eq_ok {x : Except ε α} {f : α → Except ε β} {b : β} (h : (x >>= f) = .ok b) :
    ∃ a, x = .ok a ∧ f a = .ok b := bind_ok.1 h

/-- A chain behind a check. -/
theorem check_bind_ok {x : Except ε Unit} {f : Unit → Except ε β} {b : β} :
    (x >>= f) = .ok b ↔ x = .ok () ∧ f () = .ok b := by
  rw [bind_ok]
  exact ⟨fun ⟨⟨⟩, h⟩ => h, fun h => ⟨(), h⟩⟩

theorem mapError_ok {x : Except ε α} {f : ε → ε'} {a : α} : x.mapError f = .ok a ↔ x = .ok a := by
  cases x with
  | error err =>
    constructor
    · rintro ⟨⟩
    · rintro ⟨⟩
  | ok b =>
    constructor
    · rintro ⟨⟩
      rfl
    · rintro ⟨⟩
      rfl

/-- What each part keeps is kept by a chain over a list. -/
theorem foldlM_keeps {f : β → α → Except ε β} {P : β → Prop} {xs : List α}
    (hstep : ∀ x ∈ xs, ∀ b b', P b → f b x = .ok b' → P b') {b b' : β} (h : P b) (hfold : xs.foldlM f b = .ok b') :
    P b' := by
  induction xs generalizing b with
  | nil =>
    cases hfold
    exact h
  | cons x xs ih =>
    rw [List.foldlM_cons] at hfold
    obtain ⟨b₁, h₁, hfold⟩ := bind_eq_ok hfold
    exact ih (fun y hy => hstep y (List.mem_cons_of_mem _ hy)) (hstep x (List.mem_cons_self ..) b b₁ h h₁) hfold

end Zedspaces.Lib
