/-
A waiting line whose items are numbered in order of arrival. An item joins at the end; items leave from the front,
delivered or lost. Along any such sequence each number is in exactly one place, and the delivered ones are in order
(`Ledger`).
-/
import Mathlib.Data.List.Sort
import Mathlib.Data.List.Range

namespace Zedspaces.Lib

/-- The numbers below `arrivals` are each delivered, waiting or lost, and what is delivered or waits is in order of
arrival. -/
structure Ledger (delivered waiting lost : List Nat) (arrivals : Nat) : Prop where
  places : (delivered ++ waiting ++ lost).Perm (List.range arrivals)
  ordered : (delivered ++ waiting).Pairwise (· < ·)

namespace Ledger

variable {delivered waiting front rest lost : List Nat} {arrivals : Nat}

theorem empty : Ledger [] [] [] 0 := ⟨.refl _, .nil⟩

theorem lt (h : Ledger delivered waiting lost arrivals) {n : Nat} (hn : n ∈ delivered ++ waiting) : n < arrivals :=
  List.mem_range.1 (h.places.mem_iff.1 (List.mem_append_left _ hn))

theorem arrive (h : Ledger delivered waiting lost arrivals) :
    Ledger delivered (waiting ++ [arrivals]) lost (arrivals + 1) where
  places := by
    have hlast : (delivered ++ (waiting ++ [arrivals]) ++ lost).Perm (delivered ++ waiting ++ lost ++ [arrivals]) := by
      rw [← List.append_assoc, List.append_assoc (delivered ++ waiting), List.append_assoc (delivered ++ waiting)]
      exact List.perm_append_comm.append_left _
    rw [List.range_succ]
    exact hlast.trans (h.places.append_right _)
  ordered := by
    rw [← List.append_assoc]
    refine List.pairwise_append.2 ⟨h.ordered, List.pairwise_singleton _ _, ?_⟩
    intro m hm n hn
    rw [List.mem_singleton.1 hn]
    exact h.lt hm

/-- The front of the line is delivered. -/
theorem deliver (h : Ledger delivered (front ++ rest) lost arrivals) : Ledger (delivered ++ front) rest lost arrivals where
  places := by rw [List.append_assoc delivered]; exact h.places
  ordered := by rw [List.append_assoc]; exact h.ordered

/-- The front of the line is lost. -/
theorem lose (h : Ledger delivered (front ++ rest) lost arrivals) : Ledger delivered rest (lost ++ front) arrivals where
  places := by
    have hmove : (delivered ++ rest ++ (lost ++ front)).Perm (delivered ++ (front ++ rest) ++ lost) := by
      rw [List.append_assoc, List.append_assoc delivered, ← List.append_assoc rest, List.append_assoc front]
      have hcomm : (rest ++ lost ++ front).Perm (front ++ (rest ++ lost)) := List.perm_append_comm
      exact hcomm.append_left _
    exact hmove.trans h.places
  ordered := by
    refine h.ordered.sublist ?_
    exact (List.sublist_append_right front rest).append_left delivered

/-- What is delivered is a subsequence of the arrivals. -/
theorem delivered_sublist (h : Ledger delivered waiting lost arrivals) : delivered.Sublist (List.range arrivals) := by
  have hdelivered : delivered.Pairwise (· < ·) := (List.pairwise_append.1 h.ordered).1
  refine List.sublist_of_subperm_of_pairwise ?_ hdelivered List.pairwise_lt_range
  refine (List.Sublist.subperm ?_).trans h.places.subperm
  rw [List.append_assoc]
  exact List.sublist_append_left _ _

end Ledger

end Zedspaces.Lib
