/-
Processes that step one at a time over a shared world. A machine says how a process arrives, what one
step of a process does with an answer from outside, how a process is cut short, and what the world does
by itself; a step may start one more process. Nothing else is assumed, so every interleaving and every
delay is a run.

The rule of the library is a proof outline in the manner of Owicki and Gries: a condition on the whole
state and an assertion for each process, such that a step keeps the condition, establishes the assertion
of the process that takes it (and of the one it starts) and leaves the assertions of the others true.
Then condition and assertions hold in every reachable state (`Outline.holds`).
-/
import Zedspaces.Lib.System
import Mathlib.Data.List.Basic

namespace Zedspaces.Lib

/-- A world and the processes that have arrived so far, the latest entry of a process first. -/
structure Table (ω π : Type*) where
  world : ω
  entries : List (Nat × π)

/-- `ω` worlds, `π` processes, `ι` arrivals, `α` answers, `η` what the world does by itself. -/
structure Machine (ω π ι α η : Type*) where
  accept : ι → ω → Option (ω × π)
  next : Nat → π → α → ω → Option (ω × π × Option (Nat × π))
  halt : π → Option π
  env : η → ω → ω

/-- The events of a run; the number is the process that arrives, acts or is cut short. -/
inductive Event (ι α η : Type*) where
  | arrive (n : Nat) (i : ι)
  | act (n : Nat) (a : α)
  | halt (n : Nat)
  | env (e : η)

variable {ω π ι α η : Type*}

namespace Table

/-- The process `n`. -/
def procs (s : Table ω π) (n : Nat) : Option π := s.entries.lookup n

/-- The state with world `w` and process `n` at `p`. -/
def set (s : Table ω π) (n : Nat) (p : π) (w : ω) : Table ω π := ⟨w, (n, p) :: s.entries⟩

/-- The state after a step of process `n` that may have started another process. -/
def after (s : Table ω π) (n : Nat) (p : π) (w : ω) : Option (Nat × π) → Table ω π
  | none => s.set n p w
  | some (m, q) => (s.set n p w).set m q w

@[simp] theorem set_world (s : Table ω π) (n : Nat) (p : π) (w : ω) : (s.set n p w).world = w := rfl

@[simp] theorem set_procs_self (s : Table ω π) (n : Nat) (p : π) (w : ω) : (s.set n p w).procs n = some p := by
  simp [set, procs]

theorem set_procs_ne (s : Table ω π) {n k : Nat} (h : k ≠ n) (p : π) (w : ω) :
    (s.set n p w).procs k = s.procs k := by
  have hb : (k == n) = false := beq_false_of_ne h
  simp only [set, procs, List.lookup_cons, hb]

theorem set_procs (s : Table ω π) (n k : Nat) (p : π) (w : ω) :
    (s.set n p w).procs k = if k = n then some p else s.procs k := by
  split
  · next h => rw [h, set_procs_self]
  · next h => exact set_procs_ne s h p w

/-- Something holds of every process after a step if it holds of the one that took it and of the others. -/
theorem forall_set {P : Nat → π → Prop} {s : Table ω π} {n : Nat} {p : π} {w : ω} (hp : P n p)
    (hothers : ∀ k q, k ≠ n → s.procs k = some q → P k q) : ∀ k q, (s.set n p w).procs k = some q → P k q := by
  intro k q hq
  rw [set_procs] at hq
  split at hq
  · next h =>
    cases hq
    exact h ▸ hp
  · next h => exact hothers k q h hq

@[simp] theorem after_world (s : Table ω π) (n : Nat) (p : π) (w : ω) (st : Option (Nat × π)) :
    (s.after n p w st).world = w := by cases st <;> rfl

/-- A process after a step is the one that took it, the one it started, or one that was there before. -/
theorem after_cases {s : Table ω π} {n k : Nat} {p q : π} {w : ω} {o : Option (Nat × π)}
    (h : (s.after n p w o).procs k = some q) :
    (k = n ∧ q = p ∧ ∀ r, o ≠ some (n, r)) ∨ o = some (k, q) ∨ (k ≠ n ∧ s.procs k = some q) := by
  rcases o with _ | ⟨m, r⟩
  · by_cases hkn : k = n
    · subst hkn
      simp only [after, set_procs_self, Option.some.injEq] at h
      exact .inl ⟨rfl, h.symm, by simp⟩
    · rw [after, set_procs_ne s hkn] at h
      exact .inr (.inr ⟨hkn, h⟩)
  · by_cases hkm : k = m
    · subst hkm
      simp only [after, set_procs_self, Option.some.injEq] at h
      exact .inr (.inl (by rw [h]))
    rw [after, set_procs_ne _ hkm] at h
    by_cases hkn : k = n
    · subst hkn
      rw [set_procs_self, Option.some.injEq] at h
      exact .inl ⟨rfl, h.symm, by rintro r hr; cases hr; exact hkm rfl⟩
    · rw [set_procs_ne s hkn] at h
      exact .inr (.inr ⟨hkn, h⟩)

/-- No two processes are in `P`. -/
def AtMostOne (P : π → Prop) (s : Table ω π) : Prop :=
  ∀ k m p q, s.procs k = some p → s.procs m = some q → P p → P q → k = m

/-- A step that does not bring its process into `P`. -/
theorem AtMostOne.set {P : π → Prop} {s : Table ω π} {n : Nat} {p p' : π} (h : AtMostOne P s)
    (hp : s.procs n = some p) (hkeep : P p' → P p) (w : ω) : AtMostOne P (s.set n p' w) := by
  intro k m q r hq hr hPq hPr
  rw [set_procs] at hq hr
  split at hq
  · next hkn =>
    cases hq
    split at hr
    · next hmn => rw [hkn, hmn]
    · exact hkn.trans (h n m p r hp hr (hkeep hPq) hPr)
  · split at hr
    · next hmn =>
      cases hr
      exact (h k n q p hq hp hPq (hkeep hPr)).trans hmn.symm
    · exact h k m q r hq hr hPq hPr

/-- A process that comes into `P` while there is none. -/
theorem atMostOne_set {P : π → Prop} {s : Table ω π} (hnone : ∀ k p, s.procs k = some p → ¬ P p) (n : Nat) (p : π)
    (w : ω) : AtMostOne P (s.set n p w) := by
  have hself : ∀ k q, (s.set n p w).procs k = some q → P q → k = n :=
    forall_set (P := fun k q => P q → k = n) (fun _ => rfl) fun k q _ hq hPq => absurd hPq (hnone k q hq)
  intro k m q r hq hr hPq hPr
  rw [hself k q hq hPq, hself m r hr hPr]

/-- A process that arrives outside `P`. -/
theorem AtMostOne.arrive {P : π → Prop} {s : Table ω π} {n : Nat} {p : π} (h : AtMostOne P s) (hp : ¬ P p) (w : ω) :
    AtMostOne P (s.set n p w) := by
  have hold : ∀ k q, (s.set n p w).procs k = some q → P q → s.procs k = some q :=
    forall_set (P := fun k q => P q → s.procs k = some q) (fun hPp => absurd hPp hp) fun k q _ hq _ => hq
  intro k m q r hq hr hPq hPr
  exact h k m q r (hold k q hq hPq) (hold m r hr hPr) hPq hPr

theorem exists_entry {s : Table ω π} {n : Nat} {p : π} (h : s.procs n = some p) : ∃ e ∈ s.entries, e.1 = n := by
  obtain ⟨l₁, l₂, he, -⟩ := List.lookup_eq_some_iff.1 h
  exact ⟨(n, p), by simp [he], rfl⟩

/-- Whether some process satisfies `P` is decided over the entries. -/
instance (s : Table ω π) (P : Nat → π → Prop) [∀ n p, Decidable (P n p)] :
    Decidable (∃ n p, s.procs n = some p ∧ P n p) :=
  decidable_of_iff (∃ e ∈ s.entries, (s.procs e.1).any (fun p => decide (P e.1 p)) = true) (by
    simp only [Option.any_eq_true, decide_eq_true_eq]
    constructor
    · rintro ⟨e, -, p, hp, h⟩
      exact ⟨e.1, p, hp, h⟩
    · rintro ⟨n, p, hp, h⟩
      obtain ⟨e, he, rfl⟩ := exists_entry hp
      exact ⟨e, he, p, hp, h⟩)

instance (s : Table ω π) (P : Nat → π → Prop) [∀ n p, Decidable (P n p)] :
    Decidable (∀ n p, s.procs n = some p → P n p) :=
  decidable_of_iff (¬ ∃ n p, s.procs n = some p ∧ ¬ P n p) (by
    simp only [not_exists, not_and, not_not])

end Table

namespace Machine

variable (M : Machine ω π ι α η)

/-- The state after an event; a process arrives under a number not in use. -/
def step (s : Table ω π) : Event ι α η → Option (Table ω π)
  | .arrive n i => match s.procs n with
    | some _ => none
    | none => (M.accept i s.world).map fun (w, p) => s.set n p w
  | .act n a => (s.procs n).bind fun p => (M.next n p a s.world).bind fun (w, p', st) =>
    if st.any fun (m, _) => (s.procs m).isSome then none else some (s.after n p' w st)
  | .halt n => (s.procs n).bind fun p => (M.halt p).map fun p' => s.set n p' s.world
  | .env e => some ⟨M.env e s.world, s.entries⟩

/-- Everything a step can be. -/
inductive Steps (s : Table ω π) : Event ι α η → Table ω π → Prop
  | arrive {n : Nat} {i : ι} {w : ω} {p : π} (free : s.procs n = none) (h : M.accept i s.world = some (w, p)) :
      Steps s (.arrive n i) (s.set n p w)
  | act {n : Nat} {a : α} {w : ω} {p p' : π} {st : Option (Nat × π)} (at_ : s.procs n = some p)
      (h : M.next n p a s.world = some (w, p', st)) (free : ∀ m q, st = some (m, q) → s.procs m = none) :
      Steps s (.act n a) (s.after n p' w st)
  | halt {n : Nat} {p p' : π} (at_ : s.procs n = some p) (h : M.halt p = some p') :
      Steps s (.halt n) (s.set n p' s.world)
  | env {e : η} : Steps s (.env e) ⟨M.env e s.world, s.entries⟩

variable {M} {s s' : Table ω π} {e : Event ι α η}

theorem steps_of_step (h : M.step s e = some s') : M.Steps s e s' := by
  cases e with
  | arrive n i =>
    simp only [step] at h
    split at h
    · cases h
    · rename_i free
      obtain ⟨⟨w, p⟩, ha, rfl⟩ := Option.map_eq_some_iff.1 h
      exact .arrive free ha
  | act n a =>
    obtain ⟨p, hp, h⟩ := Option.bind_eq_some_iff.1 h
    obtain ⟨⟨w, p', st⟩, hn, h⟩ := Option.bind_eq_some_iff.1 h
    simp only at h
    split at h
    · cases h
    · rename_i free
      cases h
      refine .act hp hn fun m q hst => ?_
      subst hst
      simpa using free
  | halt n =>
    obtain ⟨p, hp, h⟩ := Option.bind_eq_some_iff.1 h
    obtain ⟨p', hh, rfl⟩ := Option.map_eq_some_iff.1 h
    exact .halt hp hh
  | env e => cases h; exact .env

/-- The system of a machine that starts in `init` worlds with no process. -/
def system (M : Machine ω π ι α η) (init : ω → Prop) : System (Table ω π) (Event ι α η) where
  init s := init s.world ∧ s.entries = []
  step := M.step

/-! ## Proof outlines -/

/-- `I` holds, and the assertion of every process. -/
structure Holds (I : Table ω π → Prop) (A : Nat → π → Table ω π → Prop) (s : Table ω π) : Prop where
  whole : I s
  each : ∀ n p, s.procs n = some p → A n p s

/-- What a step of process `n` owes to the rest: `I`, and the assertions of the others. -/
structure Keeps (I : Table ω π → Prop) (A : Nat → π → Table ω π → Prop) (s : Table ω π) (n : Nat) (s' : Table ω π) :
    Prop where
  whole : I s'
  others : ∀ k q, k ≠ n → s.procs k = some q → A k q s'

/-- A proof outline for the runs whose steps meet `G`. -/
structure Outline (M : Machine ω π ι α η) (init : ω → Prop) (G : Table ω π → Event ι α η → Prop)
    (I : Table ω π → Prop) (A : Nat → π → Table ω π → Prop) : Prop where
  init : ∀ w, init w → I ⟨w, []⟩
  accept : ∀ s n i w p, Holds I A s → G s (.arrive n i) → s.procs n = none → M.accept i s.world = some (w, p) →
    Keeps I A s n (s.set n p w) ∧ A n p (s.set n p w)
  next : ∀ s n a p w p' st, Holds I A s → G s (.act n a) → s.procs n = some p →
    M.next n p a s.world = some (w, p', st) → (∀ m q, st = some (m, q) → s.procs m = none) →
    Keeps I A s n (s.after n p' w st) ∧ A n p' (s.after n p' w st) ∧
      ∀ m q, st = some (m, q) → A m q (s.after n p' w st)
  halt : ∀ s n p p', Holds I A s → G s (.halt n) → s.procs n = some p → M.halt p = some p' →
    Keeps I A s n (s.set n p' s.world) ∧ A n p' (s.set n p' s.world)
  env : ∀ s e, Holds I A s → G s (.env e) →
    I ⟨M.env e s.world, s.entries⟩ ∧ ∀ k q, s.procs k = some q → A k q ⟨M.env e s.world, s.entries⟩

variable {init : ω → Prop} {G : Table ω π → Event ι α η → Prop} {I : Table ω π → Prop} {A : Nat → π → Table ω π → Prop}

theorem Keeps.holds {w : ω} {n : Nat} {p : π} (st : Option (Nat × π)) (h : Keeps I A s n (s.after n p w st))
    (hn : A n p (s.after n p w st)) (hm : ∀ m q, st = some (m, q) → A m q (s.after n p w st)) :
    Holds I A (s.after n p w st) := by
  refine ⟨h.whole, fun k q hk => ?_⟩
  rcases Table.after_cases hk with ⟨rfl, rfl, -⟩ | hst | ⟨hkn, hk⟩
  · exact hn
  · exact hm k q hst
  · exact h.others k q hkn hk

theorem Outline.step (O : Outline M init G I A) (hs : Holds I A s) (hg : G s e) (h : M.step s e = some s') :
    Holds I A s' := by
  cases steps_of_step h with
  | arrive free ha =>
    obtain ⟨hk, hn⟩ := O.accept _ _ _ _ _ hs hg free ha
    exact hk.holds none hn (by rintro m q ⟨⟩)
  | @act _ _ _ _ _ st at_ ha free =>
    obtain ⟨hk, hn, hm⟩ := O.next _ _ _ _ _ _ _ hs hg at_ ha free
    exact hk.holds st hn hm
  | halt at_ ha =>
    obtain ⟨hk, hn⟩ := O.halt _ _ _ _ hs hg at_ ha
    exact hk.holds none hn (by rintro m q ⟨⟩)
  | env =>
    obtain ⟨hi, he⟩ := O.env _ _ hs hg
    exact ⟨hi, he⟩

/-- Condition and assertions of an outline hold in every state its runs reach. -/
theorem Outline.holds (O : Outline M init G I A) (h : (M.system init).Reach G s) : Holds I A s := by
  refine h.invariant (fun s hs => ?_) fun t e u _ hi hg hst => O.step hi hg hst
  obtain ⟨hw, hp⟩ := hs
  obtain ⟨w, entries⟩ := s
  cases hp
  exact ⟨O.init _ hw, fun n p hn => by cases hn⟩

end Machine

end Zedspaces.Lib
