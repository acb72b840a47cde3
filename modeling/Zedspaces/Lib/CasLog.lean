/-
Registers that are overwritten by compare and set, seen through the log of the writes that were accepted. A write may
quote the version that it replaces, and is accepted only at that version; every accepted write moves the version up by
one. A writer that quotes only what it has read or written itself overwrites nothing that it has not seen
(`own_between`).
-/
import Mathlib.Data.List.Basic
import Mathlib.Algebra.Order.Group.Int
import Mathlib.Tactic.Common

namespace Zedspaces.Lib.CasLog

/-- An accepted write, the version it quoted and the one it got. -/
structure Write (W K C : Type) where
  writer : W
  key : K
  content : C
  quoted : Option Int
  version : Int

variable {W K C : Type} [DecidableEq K]

/-- The version of a register after the writes, `base` before any. -/
def versionAfter (base : K → Int) (log : List (Write W K C)) (key : K) : Int :=
  base key + (log.countP fun w => w.key = key)

/-- Every write was accepted at the version it quoted, and got the next one. -/
def Ok (base : K → Int) (log : List (Write W K C)) : Prop :=
  ∀ before w after, log = before ++ w :: after →
    w.version = versionAfter base before w.key + 1 ∧ ∀ v ∈ w.quoted, v = versionAfter base before w.key

variable {base : K → Int} {log : List (Write W K C)} {w w' : Write W K C} {key : K}

@[simp] theorem versionAfter_nil : versionAfter base ([] : List (Write W K C)) key = base key := by
  simp [versionAfter]

@[simp] theorem versionAfter_concat :
    versionAfter base (log ++ [w]) key = versionAfter base log key + if w.key = key then 1 else 0 := by
  simp only [versionAfter, List.countP_append, List.countP_singleton, decide_eq_true_eq]
  split <;> simp [Int.add_assoc]

theorem base_le_versionAfter : base key ≤ versionAfter base log key := by
  simp [versionAfter]

/-- Further writes only move the version up. -/
theorem versionAfter_le_append (before after : List (Write W K C)) :
    versionAfter base before key ≤ versionAfter base (before ++ after) key := by
  simp [versionAfter]

theorem ok_nil : Ok base ([] : List (Write W K C)) := by
  intro before w after heq
  simp at heq

theorem Ok.concat (h : Ok base log) (hversion : w.version = versionAfter base log w.key + 1)
    (hquoted : ∀ v ∈ w.quoted, v = versionAfter base log w.key) : Ok base (log ++ [w]) := by
  intro before w' after heq
  rcases List.eq_nil_or_concat after with rfl | ⟨after, last, rfl⟩
  · obtain ⟨rfl, hlast⟩ := List.append_inj' heq rfl
    cases hlast
    exact ⟨hversion, hquoted⟩
  · rw [List.concat_eq_append, ← List.cons_append, ← List.append_assoc] at heq
    obtain ⟨rfl, -⟩ := List.append_inj' heq rfl
    exact h before w' after rfl

/-- A write quoted the version right below its own. -/
theorem Ok.version_eq (h : Ok base log) (hw : w ∈ log) {v : Int} (hv : w.quoted = some v) : w.version = v + 1 := by
  obtain ⟨before, after, heq⟩ := List.append_of_mem hw
  obtain ⟨hversion, hquoted⟩ := h before w after heq
  rw [hversion, hquoted v hv]

theorem Ok.version_le (h : Ok base log) (hw : w ∈ log) : w.version ≤ versionAfter base log w.key := by
  obtain ⟨before, after, rfl⟩ := List.append_of_mem hw
  have hle : versionAfter base (before ++ [w]) w.key ≤ _ := versionAfter_le_append _ after
  rw [versionAfter_concat, if_pos rfl, ← (h before w after rfl).1, List.append_assoc] at hle
  exact hle

theorem Ok.base_lt (h : Ok base log) (hw : w ∈ log) : base w.key < w.version := by
  obtain ⟨before, after, rfl⟩ := List.append_of_mem hw
  have hle : base w.key ≤ versionAfter base before w.key := base_le_versionAfter
  have hversion := (h before w after rfl).1
  omega

theorem Ok.of_append {after : List (Write W K C)} (h : Ok base (log ++ after)) : Ok base log := by
  rintro before w rest rfl
  exact h before w (rest ++ after) (by rw [List.append_assoc, List.cons_append])

/-- Of two writes of a register in the log, the later has the greater version. -/
theorem Ok.version_lt (h : Ok base log) {before after : List (Write W K C)} (heq : log = before ++ w :: after)
    (hw' : w' ∈ before) (hkey : w'.key = w.key) : w'.version < w.version := by
  have hle := (Ok.of_append (heq ▸ h)).version_le hw'
  have hnext := (h before w after heq).1
  rw [hkey] at hle
  omega

/-- A version names its write. -/
theorem Ok.eq_of_version (h : Ok base log) (hw : w ∈ log) (hw' : w' ∈ log) (hkey : w.key = w'.key)
    (hversion : w.version = w'.version) : w = w' := by
  obtain ⟨before, after, heq⟩ := List.append_of_mem hw
  rw [heq] at hw'
  rcases List.mem_append.1 hw' with hbefore | hafter
  · exact absurd (h.version_lt heq hbefore hkey.symm) (by omega)
  · rcases List.mem_cons.1 hafter with rfl | hafter
    · rfl
    · obtain ⟨pre, post, rfl⟩ := List.append_of_mem hafter
      have hlater : log = (before ++ w :: pre) ++ w' :: post := by simp [heq]
      exact absurd (h.version_lt hlater (by simp) hkey) (by omega)

/-- A writer whose every write of a register quotes `v₀` or the version of a write of its own: from `v₀` up to its last
write, all writes of the register are its own. -/
theorem Ok.own_between (h : Ok base log) (Own : W → Prop) {v₀ : Int}
    (hown : ∀ w ∈ log, Own w.writer → w.key = key → ∃ v, w.quoted = some v ∧
      (v = v₀ ∨ ∃ w' ∈ log, Own w'.writer ∧ w'.key = key ∧ w'.version = v))
    (hw : w ∈ log) (hwriter : Own w.writer) (hkey : w.key = key) :
    v₀ < w.version ∧ ∀ w' ∈ log, w'.key = key → v₀ < w'.version → w'.version ≤ w.version → Own w'.writer := by
  -- the induction goes down the versions that are quoted, to the one that was read
  obtain ⟨n, hn⟩ : ∃ n : Nat, w.version - base key = n := by
    have hlt := h.base_lt hw
    rw [hkey] at hlt
    exact ⟨(w.version - base key).toNat, by omega⟩
  induction n using Nat.strongRecOn generalizing w with
  | _ n ih =>
    obtain ⟨v, hv, hor⟩ := hown w hw hwriter hkey
    have hnext := h.version_eq hw hv
    have hhere : ∀ w' ∈ log, w'.key = key → w'.version = w.version → Own w'.writer := by
      intro w' hw' hkey' heq
      rw [h.eq_of_version hw' hw (hkey'.trans hkey.symm) heq]
      exact hwriter
    rcases hor with rfl | ⟨before, hbefore, hbwriter, hbkey, rfl⟩
    · exact ⟨by omega, fun w' hw' hkey' hlt hle => hhere w' hw' hkey' (by omega)⟩
    · have hpos := h.base_lt hbefore
      rw [hbkey] at hpos
      obtain ⟨hlt, hall⟩ := ih (n - 1) (by omega) hbefore hbwriter hbkey (by omega)
      refine ⟨by omega, fun w' hw' hkey' hlt' hle => ?_⟩
      by_cases heq : w'.version = w.version
      · exact hhere w' hw' hkey' heq
      · exact hall w' hw' hkey' hlt' (by omega)

end Zedspaces.Lib.CasLog
