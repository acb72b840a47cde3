/-
Maps as lists of entries in the order of their keys, each key once. Two such lists that look up the same are the same
list (`eq_of_lookup`), so the equality of what is built of them is that of maps.
-/
import Mathlib.Order.Lattice
import Mathlib.Tactic.Common

namespace Zedspaces.Lib.SortedMap

variable {κ ν : Type*} [LinearOrder κ] {k k' : κ} {v : ν} {l l' : List (κ × ν)}

/-- Every key once, in order. -/
def Sorted (l : List (κ × ν)) : Prop := l.Pairwise fun a b => a.1 < b.1

instance (l : List (κ × ν)) : Decidable (Sorted l) := inferInstanceAs (Decidable (l.Pairwise _))

/-- `get` -/
def lookup (k : κ) : List (κ × ν) → Option ν
  | [] => none
  | (k', v) :: l => if k = k' then some v else lookup k l

/-- `insert`, in the place of the key's entry if it has one. -/
def insert (k : κ) (v : ν) : List (κ × ν) → List (κ × ν)
  | [] => [(k, v)]
  | (k', v') :: l => if k < k' then (k, v) :: (k', v') :: l else if k = k' then (k, v) :: l else (k', v') :: insert k v l

/-- `remove` -/
def remove (k : κ) (l : List (κ × ν)) : List (κ × ν) := l.filter fun entry => entry.1 ≠ k

/-- The entry goes before the first greater key, or in the place of its own key. -/
theorem insert_cons (k : κ) (v : ν) (k' : κ) (v' : ν) (l : List (κ × ν)) : insert k v ((k', v') :: l) =
    if k < k' then (k, v) :: (k', v') :: l else if k = k' then (k, v) :: l else (k', v') :: insert k v l := rfl

theorem sorted_cons : Sorted ((k, v) :: l) ↔ (∀ entry ∈ l, k < entry.1) ∧ Sorted l := List.pairwise_cons

theorem lookup_cons_self : lookup k ((k, v) :: l) = some v := if_pos rfl

theorem lookup_cons_of_ne (h : k' ≠ k) : lookup k' ((k, v) :: l) = lookup k' l := if_neg h

theorem lookup_eq_none_of_lt (h : ∀ entry ∈ l, k < entry.1) : lookup k l = none := by
  induction l with
  | nil => rfl
  | cons entry l ih =>
    obtain ⟨hentry, hl⟩ := List.forall_mem_cons.1 h
    exact (lookup_cons_of_ne hentry.ne).trans (ih hl)

theorem mem_of_lookup (h : lookup k l = some v) : (k, v) ∈ l := by
  induction l with
  | nil => cases h
  | cons entry l ih =>
    obtain ⟨k', v'⟩ := entry
    by_cases hk : k = k'
    · subst hk
      cases lookup_cons_self.symm.trans h
      exact List.mem_cons_self ..
    · exact List.mem_cons_of_mem _ (ih ((lookup_cons_of_ne hk).symm.trans h))

theorem lookup_insert_self (k : κ) (v : ν) (l : List (κ × ν)) : lookup k (insert k v l) = some v := by
  induction l with
  | nil => exact lookup_cons_self
  | cons entry l ih =>
    obtain ⟨k', v'⟩ := entry
    rw [insert_cons]
    split
    · exact lookup_cons_self
    · split
      · exact lookup_cons_self
      · next hne => rw [lookup_cons_of_ne hne, ih]

theorem lookup_insert_of_ne (h : k' ≠ k) (v : ν) (l : List (κ × ν)) : lookup k' (insert k v l) = lookup k' l := by
  induction l with
  | nil => exact lookup_cons_of_ne h
  | cons entry l ih =>
    obtain ⟨k'', v''⟩ := entry
    rw [insert_cons]
    split
    · exact lookup_cons_of_ne h
    · split
      · next heq =>
        subst heq
        rw [lookup_cons_of_ne h, lookup_cons_of_ne h]
      · by_cases hk : k' = k''
        · subst hk
          rw [lookup_cons_self, lookup_cons_self]
        · rw [lookup_cons_of_ne hk, lookup_cons_of_ne hk, ih]

theorem lookup_remove_of_ne (h : k' ≠ k) (l : List (κ × ν)) : lookup k' (remove k l) = lookup k' l := by
  induction l with
  | nil => rfl
  | cons entry l ih =>
    obtain ⟨k'', v''⟩ := entry
    unfold remove at ih ⊢
    by_cases hk : k'' = k
    · subst hk
      rw [List.filter_cons_of_neg (by simp), ih, lookup_cons_of_ne h]
    · rw [List.filter_cons_of_pos (by simpa using hk)]
      by_cases hk' : k' = k''
      · subst hk'
        rw [lookup_cons_self, lookup_cons_self]
      · rw [lookup_cons_of_ne hk', lookup_cons_of_ne hk', ih]

theorem mem_insert {entry : κ × ν} (h : entry ∈ insert k v l) : entry = (k, v) ∨ entry ∈ l := by
  induction l with
  | nil => exact .inl (List.mem_singleton.1 h)
  | cons entry' l ih =>
    obtain ⟨k', v'⟩ := entry'
    rw [insert_cons] at h
    split at h
    · exact List.mem_cons.1 h
    · split at h
      · exact (List.mem_cons.1 h).imp_right (List.mem_cons_of_mem _)
      · rcases List.mem_cons.1 h with rfl | h
        · exact .inr (List.mem_cons_self ..)
        · exact (ih h).imp_right (List.mem_cons_of_mem _)

theorem Sorted.insert (h : Sorted l) (k : κ) (v : ν) : Sorted (insert k v l) := by
  induction l with
  | nil => exact List.pairwise_singleton ..
  | cons entry l ih =>
    obtain ⟨k', v'⟩ := entry
    obtain ⟨hlt, hl⟩ := sorted_cons.1 h
    rw [insert_cons]
    split
    · next hk =>
      refine sorted_cons.2 ⟨?_, h⟩
      rintro entry hmem
      rcases List.mem_cons.1 hmem with rfl | hmem
      · exact hk
      · exact hk.trans (hlt entry hmem)
    · next hk =>
      split
      · next heq =>
        subst heq
        exact sorted_cons.2 ⟨hlt, hl⟩
      · next hne =>
        refine sorted_cons.2 ⟨fun entry hmem => ?_, ih hl⟩
        rcases mem_insert hmem with rfl | hmem
        · exact lt_of_le_of_ne (not_lt.1 hk) (Ne.symm hne)
        · exact hlt entry hmem

theorem Sorted.remove (h : Sorted l) (k : κ) : Sorted (remove k l) := h.filter _

/-- Extensionality. -/
theorem eq_of_lookup (h : Sorted l) (h' : Sorted l') (heq : ∀ k, lookup k l = lookup k l') : l = l' := by
  induction l generalizing l' with
  | nil =>
    cases l' with
    | nil => rfl
    | cons entry l' =>
      have hfirst := heq entry.1
      rw [lookup_cons_self] at hfirst
      cases hfirst
  | cons entry l ih =>
    obtain ⟨k, v⟩ := entry
    cases l' with
    | nil =>
      have hfirst := heq k
      rw [lookup_cons_self] at hfirst
      cases hfirst
    | cons entry' l' =>
      obtain ⟨k', v'⟩ := entry'
      obtain ⟨hlt, hl⟩ := sorted_cons.1 h
      obtain ⟨hlt', hl'⟩ := sorted_cons.1 h'
      have hkeys : k = k' := by
        rcases lt_trichotomy k k' with hk | hk | hk
        · have hfirst := heq k
          rw [lookup_cons_self, lookup_cons_of_ne hk.ne, lookup_eq_none_of_lt fun entry hmem => hk.trans (hlt' entry hmem)]
            at hfirst
          cases hfirst
        · exact hk
        · have hfirst := heq k'
          rw [lookup_cons_self, lookup_cons_of_ne hk.ne, lookup_eq_none_of_lt fun entry hmem => hk.trans (hlt entry hmem)]
            at hfirst
          cases hfirst
      subst hkeys
      have hvalues := heq k
      rw [lookup_cons_self, lookup_cons_self] at hvalues
      rw [Option.some.inj hvalues, ih hl hl' fun key => ?_]
      by_cases hkey : key = k
      · subst hkey
        rw [lookup_eq_none_of_lt hlt, lookup_eq_none_of_lt hlt']
      · have hrest := heq key
        rwa [lookup_cons_of_ne hkey, lookup_cons_of_ne hkey] at hrest

end Zedspaces.Lib.SortedMap
