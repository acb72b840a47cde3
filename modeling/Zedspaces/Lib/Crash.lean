/-
Programs that a crash may stop anywhere. A program reads a disk and has operations performed on it; an operation
takes any number of steps of the device before it replies, and each step is one change of the disk. `Host.system`
boots programs, lets them be stopped between any two steps, and lets the disk be edited while none runs.

`Meets` is the program logic: started on a disk, a program keeps a guarantee at every single step, also in the middle
of an operation, and leaves what it promises when it returns. It composes over `bind` (`meets_bind`), an operation is
judged by an invariant of its own steps (`meets_perform`), and operations that all keep one assertion keep it together
(`meets_of_all`). `Does` is the same for programs that may fail, whose failure promises nothing. What holds of each
boot by itself holds along every run of boots, crashes and edits (`Host.guaranteed`).
-/
import Zedspaces.Lib.System

namespace Zedspaces.Lib

/-- A program over a disk `σ`, with operations `ι` that reply with `ρ`. -/
inductive Prog (ι σ ρ α : Type) where
  | ret (a : α)
  | read (k : σ → Prog ι σ ρ α)
  | act (i : ι) (k : ρ → Prog ι σ ρ α)

namespace Prog

variable {ι σ ρ ω α β ε : Type}

def bind : Prog ι σ ρ α → (α → Prog ι σ ρ β) → Prog ι σ ρ β
  | .ret a, f => f a
  | .read k, f => .read fun d => (k d).bind f
  | .act i k, f => .act i fun r => (k r).bind f

instance : Monad (Prog ι σ ρ) where
  pure := Prog.ret
  bind := Prog.bind

/-- Has one operation performed. -/
def perform (i : ι) : Prog ι σ ρ ρ := .act i .ret

/-- Reads something off the disk. -/
def inspect (f : σ → α) : Prog ι σ ρ α := .read fun d => .ret (f d)

/-- Every operation the program may have performed is one of `P`. -/
def All (P : ι → Prop) : Prog ι σ ρ α → Prop
  | .ret _ => True
  | .read k => ∀ d, (k d).All P
  | .act i k => P i ∧ ∀ r, (k r).All P

theorem All.bind {P : ι → Prop} {f : α → Prog ι σ ρ β} (hf : ∀ a, (f a).All P) :
    ∀ {p : Prog ι σ ρ α}, p.All P → (p >>= f).All P
  | .ret a, _ => hf a
  | .read _, h => fun d => All.bind hf (h d)
  | .act _ _, h => ⟨h.1, fun r => All.bind hf (h.2 r)⟩

theorem All.mono {P P' : ι → Prop} (hP : ∀ i, P i → P' i) : ∀ {p : Prog ι σ ρ α}, p.All P → p.All P'
  | .ret _, _ => trivial
  | .read _, h => fun d => All.mono hP (h d)
  | .act _ _, h => ⟨hP _ h.1, fun r => All.mono hP (h.2 r)⟩

/-! ## The logic -/

/-- What one step of an operation does to the disk, given what the world adds: with a reply when the operation is
over. -/
abbrev Device (ι σ ρ ω : Type) := ι → ω → σ → Option (σ × Option ρ)

variable (D : Device ι σ ρ ω) (G : ι → σ → σ → Prop)

/-- Started on the disk, the program keeps `G` at every step and returns only where `Q` holds. -/
def Meets : Prog ι σ ρ α → (α → σ → Prop) → σ → Prop
  | .ret a, Q, d => Q a d
  | .read k, Q, d => Meets (k d) Q d
  | .act i k, Q, d => ∃ J : σ → Prop, J d ∧ ∀ c w c' o, J c → D i w c = some (c', o) →
      G i c c' ∧ (o = none → J c') ∧ ∀ r, o = some r → Meets (k r) Q c'

variable {D G} {Q Q' : α → σ → Prop} {d : σ}

theorem meets_mono {p : Prog ι σ ρ α} (hQ : ∀ a c, Q a c → Q' a c) (h : Meets D G p Q d) : Meets D G p Q' d := by
  induction p generalizing d with
  | ret a => exact hQ a d h
  | read k ih => exact ih d h
  | act i k ih =>
    obtain ⟨J, hd, hstep⟩ := h
    refine ⟨J, hd, fun c w c' o hc hs => ?_⟩
    obtain ⟨hG, hmore, hdone⟩ := hstep c w c' o hc hs
    exact ⟨hG, hmore, fun r hr => ih r (hdone r hr)⟩

theorem meets_bind {p : Prog ι σ ρ α} {f : α → Prog ι σ ρ β} {Q : β → σ → Prop}
    (h : Meets D G p (fun a c => Meets D G (f a) Q c) d) : Meets D G (p >>= f) Q d := by
  induction p generalizing d with
  | ret a => exact h
  | read k ih => exact ih d h
  | act i k ih =>
    obtain ⟨J, hd, hstep⟩ := h
    refine ⟨J, hd, fun c w c' o hc hs => ?_⟩
    obtain ⟨hG, hmore, hdone⟩ := hstep c w c' o hc hs
    exact ⟨hG, hmore, fun r hr => ih r (hdone r hr)⟩

/-- An operation, by an invariant of its steps. -/
theorem meets_perform {i : ι} {Q : ρ → σ → Prop} (J : σ → Prop) (hd : J d)
    (h : ∀ c w c' o, J c → D i w c = some (c', o) → G i c c' ∧ (o = none → J c') ∧ ∀ r, o = some r → Q r c') :
    Meets D G (perform i) Q d := ⟨J, hd, h⟩

/-- The steps of the operation keep the guarantee and the assertion. -/
def Stable (D : Device ι σ ρ ω) (G : ι → σ → σ → Prop) (J : σ → Prop) (i : ι) : Prop :=
  ∀ c w c' o, J c → D i w c = some (c', o) → G i c c' ∧ J c'

theorem meets_of_all {p : Prog ι σ ρ α} {J : σ → Prop} (hp : p.All (Stable D G J)) (hd : J d) :
    Meets D G p (fun _ c => J c) d := by
  induction p generalizing d with
  | ret a => exact hd
  | read k ih => exact ih d (hp d) hd
  | act i k ih =>
    refine ⟨J, hd, fun c w c' o hc hs => ?_⟩
    obtain ⟨hG, hJ⟩ := hp.1 c w c' o hc hs
    exact ⟨hG, fun _ => hJ, fun r _ => ih r (hp.2 r) hJ⟩

/-! ## Programs that may fail -/

/-- A program that fails with an `ε` or returns. -/
abbrev Fallible (ε ι σ ρ : Type) := ExceptT ε (Prog ι σ ρ)

/-- The program with its failure as a value. -/
def capture (p : Fallible ε ι σ ρ α) : Fallible ε ι σ ρ (Except ε α) := ExceptT.mk (p.run >>= fun r => pure (.ok r))

/-- `let _ = …`: whether it failed is ignored. -/
def attempt (p : Fallible ε ι σ ρ α) : Fallible ε ι σ ρ Unit := ExceptT.mk (p.run >>= fun _ => pure (.ok ()))

def look (f : σ → α) : Fallible ε ι σ ρ α := ExceptT.lift (inspect f)

/-- Every operation of the program is one of `P`. -/
def Only (P : ι → Prop) (p : Fallible ε ι σ ρ α) : Prop := p.run.All P

section
variable {P : ι → Prop} {p : Fallible ε ι σ ρ α} {f : α → Fallible ε ι σ ρ β}

theorem only_pure {a : α} : Only P (pure a : Fallible ε ι σ ρ α) := trivial

theorem only_throw {e : ε} : Only P (throw e : Fallible ε ι σ ρ α) := trivial

theorem only_look {g : σ → α} : Only P (look g : Fallible ε ι σ ρ α) := fun _ => trivial

theorem only_bind (hp : Only P p) (hf : ∀ a, Only P (f a)) : Only P (p >>= f) := by
  rw [Only, ExceptT.run_bind]
  refine All.bind (fun r => ?_) hp
  cases r with
  | error e => exact trivial
  | ok a => exact hf a

theorem only_attempt (hp : Only P p) : Only P (attempt p) := by
  refine All.bind (fun r => ?_) hp
  exact trivial

theorem only_capture (hp : Only P p) : Only P (capture p) := by
  refine All.bind (fun r => ?_) hp
  exact trivial

theorem only_forM {l : List α} {f : α → Fallible ε ι σ ρ Unit} (hf : ∀ a ∈ l, Only P (f a)) : Only P (l.forM f) := by
  induction l with
  | nil => exact only_pure
  | cons a l ih => exact only_bind (hf a (List.mem_cons_self ..)) fun _ => ih fun b hb => hf b (List.mem_cons_of_mem _ hb)

end

/-- Started on the disk, the program keeps `G` at every step, and `Q` holds where it returns without failing. -/
def Does (D : Device ι σ ρ ω) (G : ι → σ → σ → Prop) (p : Fallible ε ι σ ρ α) (Q : α → σ → Prop) (d : σ) : Prop :=
  Meets D G p.run (fun r c => ∀ a, r = .ok a → Q a c) d

section
variable {p : Fallible ε ι σ ρ α} {f : α → Fallible ε ι σ ρ β}

theorem does_mono (h : Does D G p Q d) (hQ : ∀ a c, Q a c → Q' a c) : Does D G p Q' d :=
  meets_mono (fun _ c hr a ha => hQ a c (hr a ha)) h

theorem does_pure {a : α} (h : Q a d) : Does D G (pure a : Fallible ε ι σ ρ α) Q d := by
  rintro _ ⟨⟩
  exact h

theorem does_throw {e : ε} : Does D G (throw e : Fallible ε ι σ ρ α) Q d := by
  rintro _ ⟨⟩

/-- What was captured, again. -/
theorem does_mk {r : Except ε α} (h : ∀ a, r = .ok a → Q a d) :
    Does D G (ExceptT.mk (Pure.pure r) : Fallible ε ι σ ρ α) Q d := h

theorem does_look {g : σ → α} (h : Q (g d) d) : Does D G (look g : Fallible ε ι σ ρ α) Q d := by
  rintro _ ⟨⟩
  exact h

theorem does_bind {Q : β → σ → Prop} (h : Does D G p (fun a c => Does D G (f a) Q c) d) : Does D G (p >>= f) Q d := by
  rw [Does, ExceptT.run_bind]
  refine meets_bind (meets_mono (fun r c hr => ?_) h)
  cases r with
  | error e => rintro _ ⟨⟩
  | ok a => exact hr a rfl

/-- A read and what follows it. -/
theorem does_look_bind {g : σ → α} {Q : β → σ → Prop} (h : Does D G (f (g d)) Q d) :
    Does D G (look g >>= f : Fallible ε ι σ ρ β) Q d := does_bind (does_look h)

theorem does_of_only {J : σ → Prop} (hp : Only (Stable D G J) p) (hd : J d) : Does D G p (fun _ c => J c) d :=
  meets_mono (fun _ _ h _ _ => h) (meets_of_all hp hd)

theorem does_attempt {J : σ → Prop} (hp : Only (Stable D G J) p) (hd : J d) :
    Does D G (attempt p) (fun _ c => J c) d := does_of_only (only_attempt hp) hd

/-- A captured failure promises what the program promises of it. -/
theorem does_capture {Q : Except ε α → σ → Prop} (h : Meets D G p.run Q d) : Does D G (capture p) Q d := by
  refine meets_bind (meets_mono (fun r c hr => ?_) h)
  rintro _ ⟨⟩
  exact hr

/-- A loop, by an invariant over the elements still to come. -/
theorem does_forM {f : α → Fallible ε ι σ ρ Unit} (L : List α → σ → Prop)
    (hf : ∀ a l d, L (a :: l) d → Does D G (f a) (fun _ c => L l c) d) :
    ∀ {l : List α} {d : σ}, L l d → Does D G (l.forM f) (fun _ c => L [] c) d
  | [], _, hd => does_pure hd
  | a :: l, d, hd => does_bind (does_mono (hf a l d hd) fun _ _ hc => does_forM L hf hc)

end

end Prog

/-! ## Boots, crashes and edits -/

/-- A disk, and the boot that is running. -/
structure Host (μ ι σ ρ α : Type) where
  disk : σ
  running : Option (μ × Prog ι σ ρ α)

namespace Host

variable {μ ι σ ρ ω η α : Type}

inductive Event (μ ω η : Type) where
  | boot (m : μ)
  | read
  | op (w : ω)
  | crash
  | edit (e : η)

/-- No program is under way. -/
def idle (s : Host μ ι σ ρ α) : Bool :=
  match s.running with
  | none => true
  | some (_, .ret _) => true
  | some _ => false

/-- The programs of the boots that are admitted, over a device, on a disk that may be edited. -/
structure Setup (μ ι σ ρ ω η α : Type) where
  device : Prog.Device ι σ ρ ω
  admits : μ → Bool
  program : μ → Prog ι σ ρ α
  edit : η → σ → Option σ

variable (S : Setup μ ι σ ρ ω η α)

def step (s : Host μ ι σ ρ α) : Event μ ω η → Option (Host μ ι σ ρ α)
  | .boot m => if s.idle && S.admits m then some ⟨s.disk, some (m, S.program m)⟩ else none
  | .read => match s.running with
    | some (m, .read k) => some ⟨s.disk, some (m, k s.disk)⟩
    | _ => none
  | .op w => match s.running with
    | some (m, .act i k) => (S.device i w s.disk).map fun
      | (d, none) => ⟨d, some (m, .act i k)⟩
      | (d, some r) => ⟨d, some (m, k r)⟩
    | _ => none
  | .crash => some ⟨s.disk, none⟩
  | .edit e => if s.idle then (S.edit e s.disk).map fun d => ⟨d, none⟩ else none

def system (init : σ → Prop) : System (Host μ ι σ ρ α) (Event μ ω η) where
  init s := init s.disk ∧ s.running = none
  step := step S

variable {S} {init : σ → Prop} {Pre : μ → σ → Prop} {G : μ → ι → σ → σ → Prop}
variable {s s' : Host μ ι σ ρ α} {m : μ} {i : ι} {k : ρ → Prog ι σ ρ α} {w : ω}

/-- Each boot starts where `Pre` holds. -/
def Started (Pre : μ → σ → Prop) (s : Host μ ι σ ρ α) (e : Event μ ω η) : Prop := ∀ m, e = .boot m → Pre m s.disk

theorem step_op (h : step S s (.op w) = some s') (hr : s.running = some (m, .act i k)) :
    ∃ d o, S.device i w s.disk = some (d, o) ∧ s'.disk = d ∧
      ((o = none ∧ s'.running = some (m, .act i k)) ∨ ∃ r, o = some r ∧ s'.running = some (m, k r)) := by
  simp only [step, hr] at h
  obtain ⟨⟨d, o⟩, hd, rfl⟩ := Option.map_eq_some_iff.1 h
  cases o with
  | none => exact ⟨d, none, hd, rfl, .inl ⟨rfl, rfl⟩⟩
  | some r => exact ⟨d, some r, hd, rfl, .inr ⟨r, rfl, rfl⟩⟩

/-- What is left of the running boot meets the guarantee from the disk as it is. -/
def Guarded (S : Setup μ ι σ ρ ω η α) (G : μ → ι → σ → σ → Prop) (s : Host μ ι σ ρ α) : Prop :=
  ∀ m p, s.running = some (m, p) → p.Meets S.device (G m) (fun _ _ => True) s.disk

theorem step_guarded {e : Event μ ω η}
    (hboot : ∀ m d, S.admits m = true → Pre m d → (S.program m).Meets S.device (G m) (fun _ _ => True) d)
    (hg : Guarded S G s) (hc : Started Pre s e) (h : step S s e = some s') : Guarded S G s' := by
  cases e with
  | boot m =>
    obtain ⟨hm, h⟩ := Option.ite_none_right_eq_some.1 h
    cases h
    rintro _ _ ⟨⟩
    exact hboot m s.disk (Bool.and_eq_true_iff.1 hm).2 (hc m rfl)
  | read =>
    simp only [step] at h
    split at h
    · rename_i m k hr
      cases h
      have hread : Prog.Meets S.device (G m) (.read k) (fun _ _ => True) s.disk := hg m _ hr
      rintro _ _ ⟨⟩
      exact hread
    · cases h
  | op w =>
    rcases hr : s.running with _ | ⟨m, _ | _ | ⟨i, k⟩⟩
    · simp [step, hr] at h
    · simp [step, hr] at h
    · simp [step, hr] at h
    · obtain ⟨d, o, hd, hs', hnext⟩ := step_op h hr
      obtain ⟨J, hJ, hstep⟩ := hg m _ hr
      obtain ⟨-, hmore, hdone⟩ := hstep _ w d o hJ hd
      rw [← hs'] at hmore hdone
      intro m' p hp
      rcases hnext with ⟨ho, hr'⟩ | ⟨r, ho, hr'⟩
      · cases hp.symm.trans hr'
        exact ⟨J, hmore ho, hstep⟩
      · cases hp.symm.trans hr'
        exact hdone r ho
  | crash =>
    cases h
    rintro _ _ ⟨⟩
  | edit e =>
    obtain ⟨-, h⟩ := Option.ite_none_right_eq_some.1 h
    obtain ⟨d, -, rfl⟩ := Option.map_eq_some_iff.1 h
    rintro _ _ ⟨⟩

/-- If every boot by itself keeps the guarantee from a disk where `Pre` holds, then in every run whose boots all start
on such disks each step of each operation keeps it. -/
theorem guaranteed
    (hboot : ∀ m d, S.admits m = true → Pre m d → (S.program m).Meets S.device (G m) (fun _ _ => True) d)
    (h : (system S init).Reach (Started Pre) s) (hr : s.running = some (m, .act i k))
    (hs : (system S init).step s (.op w) = some s') : G m i s.disk s'.disk := by
  have hg : Guarded S G s := by
    refine h.invariant ?_ fun t e u _ ht hc he => step_guarded hboot ht hc he
    rintro s ⟨-, hnone⟩ m p hp
    rw [hnone] at hp
    cases hp
  obtain ⟨J, hJ, hstep⟩ := hg m _ hr
  obtain ⟨d, o, hd, hs', -⟩ := step_op hs hr
  rw [hs']
  exact (hstep _ w d o hJ hd).1

/-- What every boot keeps at each of its steps, and every edit keeps, holds of the disk throughout. -/
theorem kept {I : σ → Prop} (h₀ : ∀ d, init d → I d)
    (hboot : ∀ m d, S.admits m = true → I d → (S.program m).Meets S.device (fun _ _ d' => I d') (fun _ _ => True) d)
    (hedit : ∀ e d d', I d → S.edit e d = some d' → I d') (h : (system S init).Reach System.free s) : I s.disk := by
  have hall : I s.disk ∧ Guarded S (fun _ _ _ d' => I d') s := by
    refine System.Reach.invariant (I := fun s => I s.disk ∧ Guarded S (fun _ _ _ d' => I d') s)
      ?_ (fun t e u _ ht _ he => ⟨?_, ?_⟩) h
    · intro s hs
      refine ⟨h₀ s.disk hs.1, fun m p hp => ?_⟩
      rw [hs.2] at hp
      cases hp
    · cases e with
      | boot m =>
        obtain ⟨-, he⟩ := Option.ite_none_right_eq_some.1 he
        cases he
        exact ht.1
      | read =>
        simp only [system, step] at he
        split at he
        · cases he
          exact ht.1
        · cases he
      | op w =>
        rcases hr : t.running with _ | ⟨m, _ | _ | ⟨i, k⟩⟩
        · simp [system, step, hr] at he
        · simp [system, step, hr] at he
        · simp [system, step, hr] at he
        · obtain ⟨d, o, hd, hu, -⟩ := step_op he hr
          obtain ⟨J, hJ, hstep⟩ := ht.2 m _ hr
          rw [hu]
          exact (hstep _ w d o hJ hd).1
      | crash =>
        cases he
        exact ht.1
      | edit e =>
        obtain ⟨-, he⟩ := Option.ite_none_right_eq_some.1 he
        obtain ⟨d, hd, rfl⟩ := Option.map_eq_some_iff.1 he
        exact hedit e t.disk d ht.1 hd
    · exact @step_guarded _ _ _ _ _ _ _ S (fun _ d => I d) _ t u e hboot ht.2 (fun _ _ => ht.1) he
  exact hall.1

end Host

end Zedspaces.Lib
