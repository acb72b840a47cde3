/-
Maps whose entries expire. An entry counts up to its expiry, and from then on the map is as if it were not there; every
operation is one change of what a key has at a moment (`alter`), and what a map shows at a moment and later decides
whether two of them can be told apart (`Same`). A store that keeps expired entries may change its own entry of a key in
any way that shows the same (`Same.update`).
-/
import Mathlib.Tactic.Common
import Mathlib.Logic.Function.Basic

namespace Zedspaces.Lib

/-- A value and when it expires, if it does. -/
structure Timed (ν : Type*) where
  value : ν
  expiresAt : Option Int
  deriving DecidableEq, Repr

namespace Timed

variable {ν : Type*}

/-- Not yet expired. -/
def live (now : Int) (x : Timed ν) : Bool :=
  match x.expiresAt with
  | none => true
  | some t => decide (now < t)

/-- A value that expires `ttl` after now, or never. -/
def since (now : Int) (value : ν) (ttl : Option Int) : Timed ν := ⟨value, ttl.map (now + ·)⟩

theorem live_mono {x : Timed ν} {now later : Int} (hle : now ≤ later) (h : x.live later = true) : x.live now = true := by
  unfold live at h ⊢
  cases hx : x.expiresAt with
  | none => rfl
  | some t =>
    rw [hx] at h
    have hlater : later < t := of_decide_eq_true h
    exact decide_eq_true (by omega)

end Timed

/-- What is stored under each key. -/
abbrev TtlMap (κ ν : Type*) := κ → Option (Timed ν)

namespace TtlMap

variable {κ ν : Type*} {t m : TtlMap κ ν} {now soon : Int} {k k' : κ}

/-- What a key has at a moment. -/
def atTime (m : TtlMap κ ν) (now : Int) (k : κ) : Option (Timed ν) := (m k).filter (·.live now)

theorem atTime_eq_some {x : Timed ν} : m.atTime now k = some x ↔ m k = some x ∧ x.live now = true :=
  Option.filter_eq_some_iff

theorem atTime_eq_none : m.atTime now k = none ↔ ∀ x, m k = some x → x.live now = false := by
  simp [atTime, Option.filter_eq_none_iff]

/-- What is there later is what is left of what is there now. -/
theorem atTime_later (hle : now ≤ soon) : m.atTime soon k = (m.atTime now k).filter (·.live soon) := by
  rw [atTime, atTime, Option.filter_filter]
  congr 1
  funext x
  cases hx : x.live soon with
  | false => rw [Bool.and_false]
  | true => rw [Timed.live_mono hle hx, Bool.and_true]

/-- The two show the same from now on. -/
def Same (now : Int) (t m : TtlMap κ ν) : Prop := ∀ k, t.atTime now k = m.atTime now k

theorem Same.refl (now : Int) (t : TtlMap κ ν) : Same now t t := fun _ => rfl

theorem Same.later (h : Same now t m) (hle : now ≤ soon) : Same soon t m := by
  intro k
  rw [atTime_later hle, atTime_later hle, h k]

/-- Dropping entries that have expired is not seen. -/
theorem Same.sweep (h : Same now t m) : Same now (fun k => t.atTime now k) m := by
  intro k
  rw [← h k, atTime, atTime, Option.filter_filter]
  congr 1
  funext x
  rw [Bool.and_self]

section
variable [DecidableEq κ]

/-- The map after a key's entry is changed; what has expired is gone. -/
def alter (m : TtlMap κ ν) (now : Int) (k : κ) (f : Option (Timed ν) → Option (Timed ν)) : TtlMap κ ν :=
  Function.update (fun k => m.atTime now k) k (f (m.atTime now k))

/-- A store may change its own entry of a key in any way that shows the same. -/
theorem Same.update {f : Option (Timed ν) → Option (Timed ν)} {entry : Option (Timed ν)} (h : Same now t m)
    (hentry : entry.filter (·.live now) = (f (t.atTime now k)).filter (·.live now)) :
    Same now (Function.update t k entry) (m.alter now k f) := by
  intro k'
  by_cases hk : k' = k
  · subst hk
    rw [atTime, atTime, alter, Function.update_self, Function.update_self, hentry, h k']
  · have hswept := Same.sweep (Same.refl now m) k'
    rw [alter, atTime, atTime, Function.update_of_ne hk, Function.update_of_ne hk]
    exact (h k').trans hswept.symm

/-- Leaving the entry as it is where nothing changes. -/
theorem Same.keep {f : Option (Timed ν) → Option (Timed ν)} (h : Same now t m)
    (hentry : t.atTime now k = (f (t.atTime now k)).filter (·.live now)) : Same now t (m.alter now k f) := by
  have hupdate : Same now (Function.update t k (t k)) (m.alter now k f) := h.update hentry
  rwa [Function.update_eq_self] at hupdate

end

end TtlMap

end Zedspaces.Lib
