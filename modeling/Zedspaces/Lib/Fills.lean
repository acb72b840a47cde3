/-
Streams of bytes that arrive in reads. A read gives some bytes, is interrupted, or fails; after the last one the stream
is at its end. What a buffered reader has not consumed is in front of the further reads. What a stream delivers are the
bytes before the first failure (`bytes`), however they are cut into reads.
-/
import Mathlib.Tactic.Common

namespace Zedspaces.Lib

/-- What one read of a stream gives. -/
inductive Fill where
  | data (first : UInt8) (rest : List UInt8)
  | interrupted
  | failed

namespace Fill

/-- The bytes before the first failure. -/
def bytes : List Fill → List UInt8
  | [] => []
  | .data first rest :: fills => first :: rest ++ bytes fills
  | .interrupted :: fills => bytes fills
  | .failed :: _ => []

/-- Whether a read fails. -/
def fails : List Fill → Bool
  | [] => false
  | .failed :: _ => true
  | _ :: fills => fails fills

def isData : Fill → Bool
  | .data _ _ => true
  | _ => false

/-- What is left to read: the reads, and their bytes. -/
def size : List Fill → Nat
  | [] => 0
  | .data _ rest :: fills => rest.length + 2 + size fills
  | _ :: fills => 1 + size fills

/-- The reads once some bytes of the first have been consumed. -/
def pushBack (remaining : List UInt8) (fills : List Fill) : List Fill :=
  match remaining with
  | [] => fills
  | first :: rest => .data first rest :: fills

variable {fills : List Fill} {remaining : List UInt8}

@[simp] theorem bytes_pushBack : bytes (pushBack remaining fills) = remaining ++ bytes fills := by
  cases remaining <;> rfl

@[simp] theorem fails_pushBack : fails (pushBack remaining fills) = fails fills := by
  cases remaining <;> rfl

theorem isData_pushBack (remaining : List UInt8) (h : ∀ fill ∈ fills, isData fill = true) :
    ∀ fill ∈ pushBack remaining fills, isData fill = true := by
  cases remaining with
  | nil => exact h
  | cons first rest => exact List.forall_mem_cons.2 ⟨rfl, h⟩

theorem size_pushBack_le (remaining : List UInt8) (fills : List Fill) :
    size (pushBack remaining fills) ≤ remaining.length + 1 + size fills := by
  cases remaining with
  | nil => exact Nat.le_add_left _ _
  | cons first rest => simp only [pushBack, size, List.length_cons]; omega

theorem size_pos (h : bytes fills ≠ []) : 0 < size fills := by
  cases fills with
  | nil => exact absurd rfl h
  | cons fill fills => cases fill <;> simp only [size] <;> omega

end Fill

/-! ## The first line -/

section
variable {α : Type*} [DecidableEq α] {c : α} {l a b : List α}

/-- What stands before the first `c`, and what follows it, if there is one. -/
def cutAt (c : α) : List α → List α × Option (List α)
  | [] => ([], none)
  | d :: l => if d = c then ([], some l) else (d :: (cutAt c l).1, (cutAt c l).2)

theorem cutAt_cons_self (c : α) (l : List α) : cutAt c (c :: l) = ([], some l) := if_pos rfl

theorem cutAt_cons_of_ne {d : α} (h : d ≠ c) (l : List α) :
    cutAt c (d :: l) = (d :: (cutAt c l).1, (cutAt c l).2) := if_neg h

theorem cutAt_of_notMem (h : c ∉ l) : cutAt c l = (l, none) := by
  induction l with
  | nil => rfl
  | cons d l ih =>
    obtain ⟨hd, hl⟩ := not_or.1 (mt List.mem_cons.2 h)
    rw [cutAt_cons_of_ne (Ne.symm hd), ih hl]

theorem cutAt_append (h : c ∉ a) (b : List α) : cutAt c (a ++ c :: b) = (a, some b) := by
  induction a with
  | nil => exact cutAt_cons_self c b
  | cons d a ih =>
    obtain ⟨hd, ha⟩ := not_or.1 (mt List.mem_cons.2 h)
    rw [List.cons_append, cutAt_cons_of_ne (Ne.symm hd), ih ha]

theorem cutAt_append_of_notMem (h : c ∉ a) (l : List α) : cutAt c (a ++ l) = (a ++ (cutAt c l).1, (cutAt c l).2) := by
  induction a with
  | nil => rfl
  | cons d a ih =>
    obtain ⟨hd, ha⟩ := not_or.1 (mt List.mem_cons.2 h)
    rw [List.cons_append, cutAt_cons_of_ne (Ne.symm hd), ih ha]
    rfl

/-- A list without `c`, or one that is cut at its first `c`. -/
theorem cutAt_cases (c : α) (l : List α) :
    c ∉ l ∧ cutAt c l = (l, none) ∨ ∃ a b, l = a ++ c :: b ∧ c ∉ a ∧ cutAt c l = (a, some b) := by
  by_cases h : c ∈ l
  · obtain ⟨a, b, rfl, ha⟩ := List.eq_append_cons_of_mem h
    exact .inr ⟨a, b, rfl, ha, cutAt_append ha b⟩
  · exact .inl ⟨h, cutAt_of_notMem h⟩

end

end Zedspaces.Lib
