/-
Systems of atomic steps and their runs. A system has initial states and a partial step function
that takes the event performed; a run is a chain of performed events. A run may be asked to meet a
condition at every step, read off the state before the step and the event: a claim about every run
is the condition that is always met, and "in every run whose steps all meet …" is any other.

The rules of the library: an invariant that every step meeting the condition preserves holds
throughout a run (`Run.invariant`, `Reach.invariant`); the second form may use what is already
known of reachable states. A list of events that executes is a run (`reach_of_exec`), which is how
a concrete run is exhibited.
-/
import Mathlib.Data.List.Induction
import Mathlib.Tactic.Common

namespace Zedspaces.Lib

/-- Initial states and a partial step function over events. -/
structure System (σ ε : Type*) where
  init : σ → Prop
  step : σ → ε → Option σ

namespace System

variable {σ ε : Type*} (S : System σ ε)

/-- The condition that every step meets. -/
def free (_ : σ) (_ : ε) : Prop := True

/-- A run from `s` whose steps all meet `G`. -/
inductive Run (G : σ → ε → Prop) (s : σ) : σ → Prop
  | refl : Run G s s
  | step {t u : σ} {e : ε} : Run G s t → G t e → S.step t e = some u → Run G s u

/-- The states reached by runs from an initial state whose steps all meet `G`. -/
def Reach (G : σ → ε → Prop) (t : σ) : Prop := ∃ s, S.init s ∧ S.Run G s t

variable {S} {G G' : σ → ε → Prop} {s t u : σ}

theorem Run.trans (h : S.Run G s t) (h' : S.Run G t u) : S.Run G s u := by
  induction h' with
  | refl => exact h
  | step _ hg he ih => exact .step ih hg he

theorem Run.mono (hG : ∀ t e, G t e → G' t e) (h : S.Run G s t) : S.Run G' s t := by
  induction h with
  | refl => exact .refl
  | step _ hg he ih => exact .step ih (hG _ _ hg) he

/-- What every step meeting `G` preserves holds at the end of a run if it holds at its start. -/
theorem Run.invariant {I : σ → Prop} (hI : ∀ t e u, I t → G t e → S.step t e = some u → I u)
    (h : S.Run G s t) (h₀ : I s) : I t := by
  induction h with
  | refl => exact h₀
  | step _ hg he ih => exact hI _ _ _ ih hg he

theorem Reach.init (h : S.init s) : S.Reach G s := ⟨s, h, .refl⟩

theorem Reach.step {e : ε} (h : S.Reach G t) (hg : G t e) (he : S.step t e = some u) : S.Reach G u := by
  obtain ⟨s, h₀, hr⟩ := h
  exact ⟨s, h₀, .step hr hg he⟩

theorem Reach.run (h : S.Reach G s) (hr : S.Run G s t) : S.Reach G t := by
  obtain ⟨s₀, h₀, h⟩ := h
  exact ⟨s₀, h₀, h.trans hr⟩

theorem Reach.mono (hG : ∀ t e, G t e → G' t e) (h : S.Reach G t) : S.Reach G' t := by
  obtain ⟨s, h₀, hr⟩ := h
  exact ⟨s, h₀, hr.mono hG⟩

/-- The invariant rule. The step premise may use that the state before the step is reachable, so
that invariants proved earlier are at hand. -/
theorem Reach.invariant {I : σ → Prop} (h₀ : ∀ s, S.init s → I s)
    (hI : ∀ t e u, S.Reach G t → I t → G t e → S.step t e = some u → I u) (h : S.Reach G t) : I t := by
  obtain ⟨s, hs, hr⟩ := h
  induction hr with
  | refl => exact h₀ _ hs
  | step hr hg he ih => exact hI _ _ _ ⟨s, hs, hr⟩ ih hg he

/-- What holds of reachable states may be assumed of every state a run steps from. -/
theorem Reach.assume {K : σ → Prop} (hK : ∀ t, S.Reach G t → K t) (h : S.Reach G t) :
    S.Reach (fun t e => K t ∧ G t e) t := by
  obtain ⟨s, hs, hr⟩ := h
  refine ⟨s, hs, ?_⟩
  induction hr with
  | refl => exact .refl
  | step hr hg he ih => exact .step ih ⟨hK _ ⟨s, hs, hr⟩, hg⟩ he

/-! ## Executing a list of events -/

variable (S)

/-- Performs the events in order; `none` when one of them cannot be performed. -/
def exec (s : σ) : List ε → Option σ
  | [] => some s
  | e :: es => (S.step s e).bind fun t => exec t es

/-- Whether the events can be performed in order, each meeting `G`. -/
def execs (G : σ → ε → Prop) [∀ s e, Decidable (G s e)] (s : σ) : List ε → Bool
  | [] => true
  | e :: es => decide (G s e) && match S.step s e with
    | some t => execs G t es
    | none => false

variable {S}

/-- The trace rule: what holds of no events and their state, and is kept by one event more, holds of every execution. -/
theorem exec_invariant {I : List ε → σ → Prop} {es : List ε} (h₀ : I [] s)
    (hI : ∀ es e t u, I es t → S.step t e = some u → I (es ++ [e]) u) (h : S.exec s es = some t) : I es t := by
  have hfrom : ∀ (es done : List ε) (s : σ), I done s → S.exec s es = some t → I (done ++ es) t := by
    intro es
    induction es with
    | nil =>
      rintro done s hs ⟨⟩
      rwa [List.append_nil]
    | cons e es ih =>
      intro done s hs hexec
      obtain ⟨u, hu, hrest⟩ := Option.bind_eq_some_iff.1 hexec
      have hall := ih (done ++ [e]) u (hI done e s u hs hu) hrest
      rwa [List.append_assoc] at hall
  exact hfrom es [] s h₀ h

theorem exec_append (s : σ) (es es' : List ε) : S.exec s (es ++ es') = (S.exec s es).bind fun t => S.exec t es' := by
  induction es generalizing s with
  | nil => rfl
  | cons e es ih =>
    show (S.step s e).bind _ = ((S.step s e).bind _).bind _
    rw [Option.bind_assoc]
    exact Option.bind_congr fun t _ => ih t

theorem exec_concat {es : List ε} {e : ε} (h : S.exec s es = some t) : S.exec s (es ++ [e]) = S.step t e := by
  rw [exec_append, h]
  show (S.step t e).bind some = _
  cases S.step t e <;> rfl

/-- Where a step keeps a property exactly if it meets `G`, a run has it throughout exactly if all its steps do. -/
theorem kept_iff {I : σ → Prop} {es : List ε} (h₀ : I s) (hI : ∀ t e u, I t → S.step t e = some u → (I u ↔ G t e))
    (h : S.exec s es = some t) :
    (∀ before u, before <+: es → S.exec s before = some u → I u) ↔
      ∀ before e u, before ++ [e] <+: es → S.exec s before = some u → G u e := by
  have hdone : ∀ before, before <+: es → ∃ u, S.exec s before = some u := by
    rintro before ⟨rest, rfl⟩
    rw [exec_append] at h
    obtain ⟨u, hu, -⟩ := Option.bind_eq_some_iff.1 h
    exact ⟨u, hu⟩
  constructor
  · intro hall before e u hprefix hu
    obtain ⟨v, hv⟩ := hdone _ hprefix
    have hstep : S.step u e = some v := (exec_concat hu).symm.trans hv
    exact (hI u e v (hall before u ((List.prefix_append _ _).trans hprefix) hu) hstep).1 (hall _ v hprefix hv)
  · intro hall before
    induction before using List.reverseRecOn with
    | nil =>
      rintro u - hu
      cases hu
      exact h₀
    | append_singleton before e ih =>
      intro v hprefix hv
      have hshort := (List.prefix_append before [e]).trans hprefix
      obtain ⟨u, hu⟩ := hdone _ hshort
      exact (hI u e v (ih u hshort hu) ((exec_concat hu).symm.trans hv)).2 (hall before e u hprefix hu)

theorem run_of_exec : ∀ {es : List ε} {s t : σ}, S.exec s es = some t → S.Run free s t
  | [], s, t, h => by
    simp only [exec, Option.some.injEq] at h
    subst h; exact .refl
  | e :: es, s, t, h => by
    obtain ⟨u, hu, ht⟩ := Option.bind_eq_some_iff.1 h
    exact (Run.step .refl trivial hu).trans (run_of_exec ht)

theorem reach_of_exec {es : List ε} (h₀ : S.init s) (h : S.exec s es = some t) : S.Reach free t :=
  ⟨s, h₀, run_of_exec h⟩

theorem run_of_execs [∀ s e, Decidable (G s e)] :
    ∀ {es : List ε} {s t : σ}, S.execs G s es = true → S.exec s es = some t → S.Run G s t
  | [], s, t, _, h => by
    simp only [exec, Option.some.injEq] at h
    subst h; exact .refl
  | e :: es, s, t, hs, h => by
    obtain ⟨u, hu, ht⟩ := Option.bind_eq_some_iff.1 h
    simp only [execs, hu, Bool.and_eq_true, decide_eq_true_eq] at hs
    exact (Run.step .refl hs.1 hu).trans (run_of_execs hs.2 ht)

/-- What `execs` evaluates holds of every step of the run. -/
theorem forall_of_execs [∀ s e, Decidable (G s e)] {es : List ε} (h : S.execs G s es = true) :
    ∀ before e u, before ++ [e] <+: es → S.exec s before = some u → G u e := by
  induction es generalizing s with
  | nil =>
    intro before e u hprefix
    have hnil := List.prefix_nil.1 hprefix
    simp at hnil
  | cons e' es ih =>
    intro before e u hprefix hu
    simp only [execs, Bool.and_eq_true, decide_eq_true_eq] at h
    cases before with
    | nil =>
      obtain ⟨rfl, -⟩ := List.cons_prefix_cons.1 hprefix
      cases hu
      exact h.1
    | cons e'' before =>
      obtain ⟨rfl, hrest⟩ := List.cons_prefix_cons.1 hprefix
      obtain ⟨t, ht, hexec⟩ := Option.bind_eq_some_iff.1 hu
      rw [ht] at h
      exact ih h.2 before e u hrest hexec

section
variable (p : σ → Prop) [DecidablePred p] (es : List ε)

/-- A property that holds after executing `es` holds of a reachable state. -/
theorem exists_reach_of_exec (h₀ : S.init s) (h : (S.exec s es).any (fun t => decide (p t)) = true) :
    ∃ t, S.Reach free t ∧ p t := by
  obtain ⟨t, ht, hp⟩ := (Option.any_eq_true _ _).1 h
  exact ⟨t, reach_of_exec h₀ ht, of_decide_eq_true hp⟩

/-- The same for a run whose steps all meet `G`. -/
theorem exists_reach_of_execs [∀ s e, Decidable (G s e)] (h₀ : S.init s) (hs : S.execs G s es = true)
    (h : (S.exec s es).any (fun t => decide (p t)) = true) : ∃ t, S.Reach G t ∧ p t := by
  obtain ⟨t, ht, hp⟩ := (Option.any_eq_true _ _).1 h
  exact ⟨t, ⟨s, h₀, run_of_execs hs ht⟩, of_decide_eq_true hp⟩

end

end System

end Zedspaces.Lib
