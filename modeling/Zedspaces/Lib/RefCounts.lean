/-
Reference counts kept in a map beside the handles they count. A handle's key is retained when it is made and released
when it is dropped; `Counts` says that the map holds the number of live handles of every key and nothing else. Both
operations keep it, and the release of a live handle does not fail.
-/
import Zedspaces.Lib.Maps

namespace Zedspaces.Lib.RefCounts

open Std

variable {α : Type} {cmp : α → α → Ordering} [TransCmp cmp]

/-- One handle more. -/
def retain (counts : ExtTreeMap α Nat cmp) (k : α) : ExtTreeMap α Nat cmp := counts.insert k (counts.getD k 0 + 1)

/-- One handle less; the last one takes its entry along. No result where the count would fall below zero. -/
def release (counts : ExtTreeMap α Nat cmp) (k : α) : Option (ExtTreeMap α Nat cmp) :=
  match counts[k]? with
  | some 0 => none
  | some (count + 1) => some (if count = 0 then counts.erase k else counts.insert k count)
  | none => some counts

variable [DecidableEq α]

/-- The map counts the live handles, given by their keys, and has no entry for a key without one. -/
def Counts (counts : ExtTreeMap α Nat cmp) (live : List α) : Prop :=
  ∀ k : α, counts[k]? = if k ∈ live then some (live.count k) else none

variable {counts : ExtTreeMap α Nat cmp} {live : List α} {k : α}

theorem counts_empty : Counts (∅ : ExtTreeMap α Nat cmp) [] := by
  intro k
  rw [if_neg List.not_mem_nil, ExtTreeMap.getElem?_empty]

theorem Counts.getD (h : Counts counts live) (k : α) : counts.getD k 0 = live.count k := by
  rw [ExtTreeMap.getD_eq_getD_getElem?, h k]
  split
  · rfl
  · next hmem => exact (List.count_eq_zero.2 hmem).symm

theorem Counts.contains_iff (h : Counts counts live) (k : α) : counts.contains k = true ↔ k ∈ live := by
  rw [ExtTreeMap.contains_eq_isSome_getElem?, h k]
  split
  · next hmem => exact iff_of_true rfl hmem
  · next hmem => exact iff_of_false Bool.false_ne_true hmem

variable [LawfulEqCmp cmp]

theorem Counts.retained (h : Counts counts live) (k : α) : Counts (retain counts k) (k :: live) := by
  intro a
  rw [retain, Maps.getElem?_insert, h.getD]
  by_cases ha : k = a
  · subst ha
    rw [if_pos rfl, if_pos (List.mem_cons_self ..), List.count_cons_self]
  · have hmem : a ∈ k :: live ↔ a ∈ live := by simp [Ne.symm ha]
    rw [if_neg ha, h a, List.count_cons_of_ne ha]
    simp only [hmem]

/-- A live handle is released, and the counts of the others stay. -/
theorem Counts.released (h : Counts counts live) (hk : k ∈ live) :
    ∃ counts', release counts k = some counts' ∧ Counts counts' (live.erase k) := by
  obtain ⟨count, hcount⟩ : ∃ count, live.count k = count + 1 :=
    Nat.exists_eq_succ_of_ne_zero (Nat.ne_of_gt (List.count_pos_iff.2 hk))
  have hentry : counts[k]? = some (count + 1) := by rw [h k, if_pos hk, hcount]
  refine ⟨if count = 0 then counts.erase k else counts.insert k count, by rw [release, hentry], ?_⟩
  intro a
  by_cases ha : k = a
  · subst ha
    have hleft : (live.erase k).count k = count := by rw [List.count_erase_self, hcount]; rfl
    by_cases hzero : count = 0
    · have hnone : k ∉ live.erase k := List.count_eq_zero.1 (hleft.trans hzero)
      rw [if_pos hzero, Maps.getElem?_erase, if_pos rfl, if_neg hnone]
    · have hmem : k ∈ live.erase k := List.count_pos_iff.1 (by omega)
      rw [if_neg hzero, Maps.getElem?_insert, if_pos rfl, if_pos hmem, hleft]
  · have hsame : (if count = 0 then counts.erase k else counts.insert k count)[a]? = counts[a]? := by
      split
      · rw [Maps.getElem?_erase, if_neg ha]
      · rw [Maps.getElem?_insert, if_neg ha]
    rw [hsame, h a, List.count_erase_of_ne (Ne.symm ha)]
    simp only [List.mem_erase_of_ne (Ne.symm ha)]

end Zedspaces.Lib.RefCounts
