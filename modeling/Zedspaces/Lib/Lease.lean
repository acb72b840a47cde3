/-
A lock that expires: an entry with an owner's token and an expiry. It is taken only when there is
no entry or the entry has expired, and released only by the token that took it, expired or not.
While an owner's entry is unexpired nobody else holds or takes the lock; after that, nothing is
promised.
-/
import Mathlib.Tactic.Common
import Mathlib.Algebra.Order.Group.Int

namespace Zedspaces.Lib

/-- The entry of a taken lock. -/
structure Lease (τ : Type*) where
  token : τ
  expiresAt : Int
  deriving DecidableEq, Repr

namespace Lease

variable {τ : Type*} {now later ttl : Int} {a b : τ} {entry entry' : Option (Lease τ)}

/-- The entry after `tok` takes the lock, or `none` when an unexpired entry is in the way. -/
def acquire (now ttl : Int) (tok : τ) : Option (Lease τ) → Option (Lease τ)
  | none => some ⟨tok, now + ttl⟩
  | some l => if l.expiresAt ≤ now then some ⟨tok, now + ttl⟩ else none

/-- The entry after `tok` releases the lock. -/
def release [DecidableEq τ] (tok : τ) : Option (Lease τ) → Option (Lease τ)
  | none => none
  | some l => if l.token = tok then none else some l

/-- `tok` holds the lock: the entry is its own and has not expired. -/
def Holds (now : Int) (tok : τ) (entry : Option (Lease τ)) : Prop :=
  ∃ l, entry = some l ∧ l.token = tok ∧ now < l.expiresAt

instance [DecidableEq τ] (now : Int) (tok : τ) (entry : Option (Lease τ)) : Decidable (Holds now tok entry) :=
  match entry with
  | none => .isFalse (by rintro ⟨l, h, -⟩; cases h)
  | some l => decidable_of_iff (l.token = tok ∧ now < l.expiresAt)
      ⟨fun h => ⟨l, rfl, h⟩, by rintro ⟨l', h, h'⟩; cases h; exact h'⟩

/-- Mutual exclusion at one instant. -/
theorem Holds.unique (ha : Holds now a entry) (hb : Holds now b entry) : a = b := by
  obtain ⟨l, rfl, rfl, -⟩ := ha
  obtain ⟨l', h, rfl, -⟩ := hb
  cases h; rfl

theorem Holds.earlier (h : Holds later a entry) (hle : now ≤ later) : Holds now a entry := by
  obtain ⟨l, he, ht, hlt⟩ := h
  exact ⟨l, he, ht, lt_of_le_of_lt hle hlt⟩

/-- Nobody takes the lock from a holder. -/
theorem Holds.acquire_eq_none (h : Holds now a entry) : acquire now ttl b entry = none := by
  obtain ⟨l, rfl, -, hlt⟩ := h
  exact if_neg (by omega)

theorem token_of_acquire (h : acquire now ttl a entry = some l) : l.token = a := by
  cases entry with
  | none => simp only [acquire, Option.some.injEq] at h; rw [← h]
  | some l' =>
    simp only [acquire] at h
    split at h
    · cases h; rfl
    · cases h

theorem holds_of_acquire (hpos : 0 < ttl) (h : acquire now ttl a entry = some l) : Holds now a (some l) := by
  cases entry with
  | none =>
    simp only [acquire, Option.some.injEq] at h
    subst h
    exact ⟨_, rfl, rfl, by simp only; omega⟩
  | some l' =>
    simp only [acquire] at h
    split at h
    · cases h
      exact ⟨_, rfl, rfl, by simp only; omega⟩
    · cases h

section
variable [DecidableEq τ]

/-- A release takes the lock from its own token only. -/
theorem holds_release (hne : a ≠ b) : Holds now a (release b entry) ↔ Holds now a entry := by
  cases entry with
  | none => rfl
  | some l =>
    simp only [release]
    split
    · rename_i hb
      constructor
      · rintro ⟨l', h, -⟩; cases h
      · rintro ⟨l', h, ha, -⟩
        cases h
        exact absurd (ha.symm.trans hb) hne
    · rfl

end

end Lease

end Zedspaces.Lib
