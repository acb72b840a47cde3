/-
Promises and the reactions that wait for them. A promise is pending or settled once and for all; a reaction registered
on it is a job from the time it is settled, and is run once. Which job runs next is left open, so that what is proved
of every order holds of the order in which they were queued.
-/
import Mathlib.Data.List.Nodup
import Mathlib.Logic.Function.Basic
import Mathlib.Tactic.Common

namespace Zedspaces.Lib

inductive Outcome where
  | fulfilled
  | rejected
  deriving DecidableEq, Repr

/-- The settled ones of the promises `P`, and the reactions `J` that have not run. -/
structure Promises (P J : Type) where
  outcome : P → Option Outcome
  reactions : List (P × J)

namespace Promises

variable {P J : Type}

def empty : Promises P J := ⟨fun _ => none, []⟩

/-- Registers a reaction to the promise, settled or not. -/
def andThen (ps : Promises P J) (p : P) (job : J) : Promises P J :=
  { ps with reactions := ps.reactions ++ [(p, job)] }

section
variable {ps : Promises P J} {p q : P} {job other : J}

@[simp] theorem andThen_outcome : (ps.andThen p job).outcome = ps.outcome := rfl

@[simp] theorem mem_andThen : (q, other) ∈ (ps.andThen p job).reactions ↔
    (q, other) ∈ ps.reactions ∨ q = p ∧ other = job := by
  simp [andThen]

theorem andThen_nodup (h : ps.reactions.Nodup) (hnew : (p, job) ∉ ps.reactions) :
    (ps.andThen p job).reactions.Nodup := by
  refine List.nodup_append.2 ⟨h, List.nodup_singleton _, ?_⟩
  rintro a ha b hb rfl
  exact hnew (List.mem_singleton.1 hb ▸ ha)

end

variable [DecidableEq P]

/-- A promise that is settled stays as it is. -/
def settle (ps : Promises P J) (p : P) (outcome : Outcome) : Promises P J :=
  match ps.outcome p with
  | some _ => ps
  | none => { ps with outcome := Function.update ps.outcome p (some outcome) }

section
variable {ps : Promises P J} {p : P} {outcome : Outcome}

@[simp] theorem settle_reactions : (ps.settle p outcome).reactions = ps.reactions := by
  unfold settle
  split <;> rfl

theorem settle_outcome (q : P) : (ps.settle p outcome).outcome q =
    if q = p then some ((ps.outcome p).getD outcome) else ps.outcome q := by
  unfold settle
  cases hp : ps.outcome p with
  | some settled =>
    by_cases hq : q = p
    · simp [hq, hp]
    · simp [hq]
  | none => simp [Function.update_apply]

/-- What is settled stays settled. -/
theorem settle_isSome (q : P) : ((ps.settle p outcome).outcome q).isSome ↔ q = p ∨ (ps.outcome q).isSome := by
  rw [settle_outcome]
  split
  · next heq => simp [heq]
  · next hne => simp [hne]

end

variable [DecidableEq J]

/-- Takes a job out of the queue: a reaction whose promise is settled. -/
def take (ps : Promises P J) (p : P) (job : J) : Option (Outcome × Promises P J) :=
  if (p, job) ∈ ps.reactions then
    (ps.outcome p).map fun outcome => (outcome, { ps with reactions := ps.reactions.erase (p, job) })
  else none

variable {ps ps' : Promises P J} {p q : P} {job other : J} {outcome : Outcome}

/-- A job that is taken was a reaction to a settled promise; the other reactions stay. -/
theorem take_eq_some (h : ps.take p job = some (outcome, ps')) : (p, job) ∈ ps.reactions ∧
    ps.outcome p = some outcome ∧ ps' = { ps with reactions := ps.reactions.erase (p, job) } := by
  unfold take at h
  split at h
  · next hmem =>
    obtain ⟨settled, hsettled, heq⟩ := Option.map_eq_some_iff.1 h
    cases heq
    exact ⟨hmem, hsettled, rfl⟩
  · cases h

theorem take_of_mem (hmem : (p, job) ∈ ps.reactions) (hp : ps.outcome p = some outcome) :
    ps.take p job = some (outcome, { ps with reactions := ps.reactions.erase (p, job) }) := by
  rw [take, if_pos hmem, hp]
  rfl

theorem mem_erase (h : ps.reactions.Nodup) : (q, other) ∈ ps.reactions.erase (p, job) ↔
    (q, other) ∈ ps.reactions ∧ ¬ (q = p ∧ other = job) := by
  rw [h.mem_erase_iff, ne_eq, Prod.mk.injEq, and_comm]

end Promises

/-! ## Lists of calls -/

/-- The entries of a list that is one longer. -/
theorem getElem?_concat_eq_some {α : Type} {xs : List α} {x y : α} {i : Nat} :
    (xs ++ [x])[i]? = some y ↔ xs[i]? = some y ∨ i = xs.length ∧ y = x := by
  rw [List.getElem?_append]
  split
  · next hi => exact ⟨.inl, fun hor => hor.resolve_right fun ⟨heq, _⟩ => by omega⟩
  · next hi =>
    have hnone : xs[i]? = none := List.getElem?_eq_none_iff.2 (Nat.le_of_not_lt hi)
    rw [List.getElem?_singleton, hnone]
    constructor
    · intro hy
      split at hy
      · next hzero =>
        cases hy
        exact .inr ⟨by omega, rfl⟩
      · cases hy
    · rintro (hold | ⟨rfl, rfl⟩)
      · cases hold
      · rw [if_pos (Nat.sub_self _)]

theorem exists_getElem?_concat {α : Type} {xs : List α} {x : α} {P : α → Prop} {i : Nat} :
    (∃ y, (xs ++ [x])[i]? = some y ∧ P y) ↔ (∃ y, xs[i]? = some y ∧ P y) ∨ i = xs.length ∧ P x := by
  constructor
  · rintro ⟨y, hy, hP⟩
    rcases getElem?_concat_eq_some.1 hy with hy | ⟨hi, rfl⟩
    · exact .inl ⟨y, hy, hP⟩
    · exact .inr ⟨hi, hP⟩
  · rintro (⟨y, hy, hP⟩ | ⟨hi, hP⟩)
    · exact ⟨y, getElem?_concat_eq_some.2 (.inl hy), hP⟩
    · exact ⟨x, getElem?_concat_eq_some.2 (.inr ⟨hi, rfl⟩), hP⟩

/-- The entries of a list in which one was replaced. -/
theorem getElem?_set_eq_some {α : Type} {xs : List α} {x y z : α} {i j : Nat} (hi : xs[i]? = some z) :
    (xs.set i x)[j]? = some y ↔ j = i ∧ y = x ∨ j ≠ i ∧ xs[j]? = some y := by
  have hlt : i < xs.length := (List.getElem?_eq_some_iff.1 hi).1
  by_cases hj : j = i
  · subst hj
    rw [List.getElem?_set_self hlt]
    simp [eq_comm]
  · rw [List.getElem?_set_ne (Ne.symm hj)]
    simp [hj]

/-- A property of the entry at an index, when one was replaced. -/
theorem exists_getElem?_set {α : Type} {xs : List α} {x z : α} {P : α → Prop} {i j : Nat} (hi : xs[i]? = some z) :
    (∃ y, (xs.set i x)[j]? = some y ∧ P y) ↔ j = i ∧ P x ∨ j ≠ i ∧ ∃ y, xs[j]? = some y ∧ P y := by
  constructor
  · rintro ⟨y, hy, hP⟩
    rcases (getElem?_set_eq_some hi).1 hy with ⟨hj, rfl⟩ | ⟨hj, hy⟩
    · exact .inl ⟨hj, hP⟩
    · exact .inr ⟨hj, y, hy, hP⟩
  · rintro (⟨hj, hP⟩ | ⟨hj, y, hy, hP⟩)
    · exact ⟨x, (getElem?_set_eq_some hi).2 (.inl ⟨hj, rfl⟩), hP⟩
    · exact ⟨y, (getElem?_set_eq_some hi).2 (.inr ⟨hj, hy⟩), hP⟩

/-- What was begun of what was queued, both in the order queued and nothing begun before what was queued earlier. -/
theorem isPrefix_of_downward {begun queued : List Nat} (hbegun : begun.Pairwise (· < ·))
    (hqueued : queued.Pairwise (· < ·)) (hsub : begun ⊆ queued)
    (hdown : ∀ i ∈ queued, ∀ j ∈ begun, i < j → i ∈ begun) : begun <+: queued := by
  induction queued generalizing begun with
  | nil => exact List.subset_nil.1 hsub ▸ List.nil_prefix
  | cons y ys ih =>
    obtain ⟨hy, hys⟩ := List.pairwise_cons.1 hqueued
    match begun with
    | [] => exact List.nil_prefix
    | x :: xs =>
      obtain ⟨hx, hxs⟩ := List.pairwise_cons.1 hbegun
      have hhead : x = y := by
        rcases List.mem_cons.1 (hsub (List.mem_cons_self ..)) with heq | hmem
        · exact heq
        · have hlt := hy x hmem
          rcases List.mem_cons.1 (hdown y (List.mem_cons_self ..) x (List.mem_cons_self ..) hlt) with heq | hy'
          · exact heq.symm
          · have := hx y hy'
            omega
      subst hhead
      refine List.cons_prefix_cons.2 ⟨rfl, ih hxs hys ?_ ?_⟩
      · intro z hz
        refine (List.mem_cons.1 (hsub (List.mem_cons_of_mem _ hz))).resolve_left fun heq => ?_
        exact absurd (hx z hz) (heq ▸ Nat.lt_irrefl _)
      · intro i hi j hj hij
        refine (List.mem_cons.1 (hdown i (List.mem_cons_of_mem _ hi) j (List.mem_cons_of_mem _ hj) hij)).resolve_left
          fun heq => ?_
        exact absurd (hy i hi) (heq ▸ Nat.lt_irrefl _)

end Zedspaces.Lib
