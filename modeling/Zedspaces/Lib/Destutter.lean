/-
Runs of equal elements in a list. `List.destutter (· ≠ ·)` keeps one element of every run; it keeps no value twice
exactly if each value has one run only (`nodup_destutter`).
-/
import Mathlib.Data.List.Destutter
import Mathlib.Tactic.Common

namespace Zedspaces.Lib

variable {α : Type*} {a b : α} {l : List α}

/-- Between two equal elements there is nothing else. -/
def Unbroken (l : List α) : Prop :=
  ∀ before a between after, l = before ++ a :: (between ++ a :: after) → ∀ b ∈ between, b = a

theorem unbroken_nil : Unbroken ([] : List α) := by
  intro before a between after h
  simp at h

/-- One more element at the front begins a run, or continues the first one. -/
theorem unbroken_cons : Unbroken (a :: l) ↔ Unbroken l ∧ ∀ between after, l = between ++ a :: after → ∀ b ∈ between, b = a := by
  constructor
  · intro h
    refine ⟨fun before x between after hl => ?_, fun between after hl => ?_⟩
    · exact h (a :: before) x between after (congrArg (a :: ·) hl)
    · exact h [] a between after (congrArg (a :: ·) hl)
  · rintro ⟨hrest, hfirst⟩ before x between after hl
    cases before with
    | nil =>
      obtain ⟨rfl, hl⟩ := List.cons_eq_cons.1 hl
      exact hfirst between after hl
    | cons y before => exact hrest before x between after (List.cons_eq_cons.1 hl).2

theorem unbroken_cons_cons : Unbroken (a :: b :: l) ↔ Unbroken (b :: l) ∧ (a ≠ b → a ∉ l) := by
  rw [unbroken_cons]
  refine and_congr_right fun hrest => ⟨fun h hne hmem => ?_, fun h between after hl => ?_⟩
  · obtain ⟨between, after, rfl⟩ := List.append_of_mem hmem
    exact hne (h (b :: between) after rfl b List.mem_cons_self).symm
  · cases between with
    | nil => exact List.forall_mem_nil _
    | cons x between =>
      obtain ⟨rfl, rfl⟩ := List.cons_eq_cons.1 hl
      by_cases hab : a = b
      · subst hab
        have hfirst := (unbroken_cons.1 hrest).2 between after rfl
        exact List.forall_mem_cons.2 ⟨rfl, hfirst⟩
      · exact absurd (List.mem_append_right _ List.mem_cons_self) (h hab)

variable [DecidableEq α]

theorem mem_destutter'_ne {x : α} : x ∈ l.destutter' (· ≠ ·) a ↔ x = a ∨ x ∈ l := by
  induction l generalizing a with
  | nil => simp
  | cons b l ih =>
    by_cases hab : a = b
    · subst hab
      rw [List.destutter'_cons_neg l (by simp), ih, List.mem_cons, ← or_assoc, or_self]
    · rw [List.destutter'_cons_pos l hab, List.mem_cons, ih, List.mem_cons]

theorem nodup_destutter' : (l.destutter' (· ≠ ·) a).Nodup ↔ Unbroken (a :: l) := by
  induction l generalizing a with
  | nil =>
    simp only [List.destutter'_nil, List.nodup_singleton, true_iff]
    exact unbroken_cons.2 ⟨unbroken_nil, by simp⟩
  | cons b l ih =>
    rw [unbroken_cons_cons, ← ih]
    by_cases hab : a = b
    · subst hab
      rw [List.destutter'_cons_neg l (by simp)]
      simp
    · rw [List.destutter'_cons_pos l hab, List.nodup_cons, mem_destutter'_ne, and_comm]
      simp [hab]

theorem nodup_destutter : (l.destutter (· ≠ ·)).Nodup ↔ Unbroken l := by
  cases l with
  | nil =>
    simp only [List.destutter_nil, List.nodup_nil, true_iff]
    exact unbroken_nil
  | cons a l => exact nodup_destutter'

end Zedspaces.Lib
