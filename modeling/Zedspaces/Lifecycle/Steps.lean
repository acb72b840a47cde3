/-
One step of the control plane, seen from its two sides: the one statement it performs on the world, and
where each process of the state after it comes from. A run keeps its workspace, its input and its starter
for ever, and once it has ended it is not in flight again.
-/
import Zedspaces.Lifecycle.Effects

namespace Zedspaces.Lifecycle

open Lib

variable {cfg : Config} {s s' : Sys} {e : SysEvent} {k n : Pid} {p q : Proc} {r r' : Run} {stmt : Stmt}

/-- The process that arrives, acts or is cut short. -/
def SysEvent.pid : SysEvent → Option Pid
  | .arrive n _ | .act n _ | .halt n => some n
  | .env _ => none

/-- The statement a step performs. -/
inductive Sys.Performs (cfg : Config) (s : Sys) : SysEvent → Stmt → Prop
  | arrive {n : Pid} {i : Arrival} {stmt : Stmt} {p : Proc} (free : s.procs n = none)
      (h : i.accept cfg s.world = some (stmt, p)) : Performs cfg s (.arrive n i) stmt
  | act {n : Pid} {a : Answer} {p p' : Proc} {stmt : Stmt} {st : Option Starts} (at_ : s.procs n = some p)
      (h : p.next cfg n a s.world = some (stmt, p', st)) : Performs cfg s (.act n a) stmt
  | halt {n : Pid} : Performs cfg s (.halt n) .nothing
  | env {e : Ambient} : Performs cfg s (.env e) e.stmt

/-- Where a process of the state after a step comes from. -/
inductive Sys.Origin (cfg : Config) (s : Sys) (e : SysEvent) : Pid → Proc → Prop
  | same {k : Pid} {q : Proc} (h : s.procs k = some q) (hk : SysEvent.pid e ≠ some k) : Origin cfg s e k q
  | acted {n : Pid} {a : Answer} {p p' : Proc} {stmt : Stmt} {st : Option Starts} (he : e = .act n a)
      (hp : s.procs n = some p) (hn : p.next cfg n a s.world = some (stmt, p', st)) : Origin cfg s e n p'
  | started {n : Pid} {a : Answer} {p p' : Proc} {stmt : Stmt} {st : Starts} (he : e = .act n a)
      (hp : s.procs n = some p) (hn : p.next cfg n a s.world = some (stmt, p', some st))
      (free : s.procs st.run = none) : Origin cfg s e st.run (.run (.fresh st.ws st.input (p.starter n)))
  | arrived {n : Pid} {i : Arrival} {stmt : Stmt} {p : Proc} (he : e = .arrive n i) (free : s.procs n = none)
      (ha : i.accept cfg s.world = some (stmt, p)) : Origin cfg s e n p
  | halted {n : Pid} {r : Run} (he : e = .halt n) (hp : s.procs n = some (.run r)) (hf : r.inFlight = true) :
      Origin cfg s e n (.run { r with phase := .ended false })

/-- A step performs one statement. -/
theorem Sys.world_step (h : (lifecycle cfg).step s e = some s') :
    ∃ stmt, s.Performs cfg e stmt ∧ s'.world = stmt.exec cfg s.world := by
  have hs : (controlPlane cfg).Steps s e s' := Machine.steps_of_step h
  cases hs with
  | arrive free ha =>
    obtain ⟨stmt, hi, rfl⟩ := controlPlane_accept ha
    exact ⟨stmt, .arrive free hi, rfl⟩
  | act hp ha free =>
    obtain ⟨stmt, starts, hn, rfl, rfl⟩ := controlPlane_next ha
    exact ⟨stmt, .act hp hn, Table.after_world ..⟩
  | halt hp hh => exact ⟨.nothing, .halt, rfl⟩
  | env => exact ⟨_, .env, rfl⟩

/-- Every process after a step has an origin. -/
theorem Sys.origin (h : (lifecycle cfg).step s e = some s') (hk : s'.procs k = some q) : s.Origin cfg e k q := by
  have hs : (controlPlane cfg).Steps s e s' := Machine.steps_of_step h
  cases hs with
  | @arrive n i w p free ha =>
    obtain ⟨stmt, hi, rfl⟩ := controlPlane_accept ha
    rcases Table.after_cases (o := none) hk with ⟨rfl, rfl, -⟩ | hst | ⟨hkn, hk⟩
    · exact .arrived rfl free hi
    · cases hst
    · exact .same hk fun he => hkn (Option.some.inj he).symm
  | @act n a w p p' st hp ha free =>
    obtain ⟨stmt, starts, hn, rfl, rfl⟩ := controlPlane_next ha
    rcases Table.after_cases hk with ⟨rfl, rfl, -⟩ | hst | ⟨hkn, hk⟩
    · exact .acted rfl hp hn
    · obtain ⟨x, hx, he⟩ := Option.map_eq_some_iff.1 hst
      subst hx
      cases he
      exact .started rfl hp hn (free _ _ rfl)
    · exact .same hk fun he => hkn (Option.some.inj he).symm
  | @halt n p p' hp hh =>
    rcases Table.after_cases (o := none) hk with ⟨rfl, rfl, -⟩ | hst | ⟨hkn, hk⟩
    · cases p with
      | run r =>
        simp only [controlPlane, Proc.halt] at hh
        split at hh
        · rename_i hf
          cases hh
          exact .halted rfl hp hf
        · cases hh
      | _ => cases hh
    · cases hst
    · exact .same hk fun he => hkn (Option.some.inj he).symm
  | env => exact .same hk (by rintro ⟨⟩)

/-- A process that neither acts nor is cut short stays as it is. -/
theorem Sys.procs_kept (h : (lifecycle cfg).step s e = some s') (hk : s.procs k = some q) (hne : SysEvent.pid e ≠ some k) :
    s'.procs k = some q := by
  have hs : (controlPlane cfg).Steps s e s' := Machine.steps_of_step h
  cases hs with
  | @arrive n => exact (Table.set_procs_ne s (fun he => hne (congrArg some he.symm)) _ _).trans hk
  | @act n a w p p' st hp ha free =>
    have hn : k ≠ n := fun he => hne (congrArg some he.symm)
    cases st with
    | none => exact (Table.set_procs_ne s hn _ _).trans hk
    | some x =>
      have hx : k ≠ x.1 := by
        rintro rfl
        cases hk.symm.trans (free x.1 x.2 rfl)
      exact (Table.set_procs_ne _ hx _ _).trans ((Table.set_procs_ne s hn _ _).trans hk)
  | @halt n => exact (Table.set_procs_ne s (fun he => hne (congrArg some he.symm)) _ _).trans hk
  | env => exact hk

/-- The process that acts is at its next position afterwards, and the run it starts is there. -/
theorem Sys.procs_acted {a : Answer} (h : (lifecycle cfg).step s (.act n a) = some s') (hp : s.procs n = some p) :
    ∃ stmt p' st, p.next cfg n a s.world = some (stmt, p', st) ∧ s'.procs n = some p' ∧
      s'.world = stmt.exec cfg s.world ∧
      ∀ x, st = some x → s'.procs x.run = some (.run (.fresh x.ws x.input (p.starter n))) := by
  have hs : (controlPlane cfg).Steps s (.act n a) s' := Machine.steps_of_step h
  cases hs with
  | @act _ _ w p₀ p' st hp₀ ha free =>
    cases hp.symm.trans hp₀
    obtain ⟨stmt, starts, hn, rfl, rfl⟩ := controlPlane_next ha
    refine ⟨stmt, p', starts, hn, ?_, Table.after_world .., ?_⟩
    · cases starts with
      | none => exact Table.set_procs_self ..
      | some st =>
        have hne : n ≠ st.run := by
          rintro rfl
          cases hp.symm.trans (free _ _ rfl)
        exact (Table.set_procs_ne _ hne _ _).trans (Table.set_procs_self ..)
    · rintro x rfl
      exact Table.set_procs_self ..

/-- A process is still there after a step. -/
theorem Sys.procs_isSome (h : (lifecycle cfg).step s e = some s') (hk : s.procs k = some q) :
    ∃ q', s'.procs k = some q' := by
  by_cases hne : SysEvent.pid e = some k
  · cases e with
    | arrive n i =>
      cases hne
      have hs : (controlPlane cfg).Steps s (.arrive k i) s' := Machine.steps_of_step h
      cases hs with
      | arrive free _ => cases hk.symm.trans free
    | act n a =>
      cases hne
      obtain ⟨stmt, p', st, hn, hp', -⟩ := Sys.procs_acted h hk
      exact ⟨p', hp'⟩
    | halt n =>
      cases hne
      have hs : (controlPlane cfg).Steps s (.halt k) s' := Machine.steps_of_step h
      cases hs with
      | halt hp hh => exact ⟨_, Table.set_procs_self ..⟩
    | env e => cases hne
  · exact ⟨q, Sys.procs_kept h hk hne⟩

/-- What is neither an insertion nor something that happens by itself is performed by a process. -/
theorem Sys.Performs.act_of (h : s.Performs cfg e stmt) (hn : stmt ≠ .nothing)
    (hins : ∀ id release idle, stmt ≠ .insertWorkspace id release idle) (henv : ∀ x : Ambient, stmt ≠ x.stmt) :
    ∃ n a p p' st, e = .act n a ∧ s.procs n = some p ∧ p.next cfg n a s.world = some (stmt, p', st) := by
  cases h with
  | arrive free ha =>
    rcases Arrival.accept_cases ha with ⟨id, release, idle, -, -, rfl, -⟩ | ⟨rfl, -⟩
    · exact absurd rfl (hins id release idle)
    · exact absurd rfl hn
  | halt => exact absurd rfl hn
  | @env x => exact absurd rfl (henv x)
  | act hp h => exact ⟨_, _, _, _, _, rfl, hp, h⟩

/-- A row is still there after a step, as the step's statement leaves it. -/
theorem Sys.Performs.rows_kept {id : WsId} {row : Workspace} (h : s.Performs cfg e stmt) (hrow : s.world.rows id = some row) :
    (stmt.exec cfg s.world).rows id = some (stmt.onRow cfg s.world id row) := by
  rw [Stmt.exec_rows cfg stmt s.world id, hrow]
  · rfl
  rintro release idle rfl
  generalize hs : Stmt.insertWorkspace id release idle = stmt at h
  cases h with
  | arrive free hi =>
    subst hs
    rcases Arrival.accept_cases hi with ⟨j, _, _, -, hnone, he, -⟩ | ⟨he, -⟩
    · cases he
      cases hnone.symm.trans hrow
    · cases he
  | act hp hn =>
    subst hs
    exact (Proc.next_does hn).ne_insert.elim
  | halt => cases hs
  | @env e => cases e <;> cases hs

/-! ## Runs -/

/-- `r` and `r'` are the same run, `r'` later. -/
structure Run.Same (r r' : Run) : Prop where
  ws : r'.ws = r.ws
  input : r'.input = r.input
  starter : r'.starter = r.starter
  inFlight : r'.inFlight = true → r.inFlight = true

theorem Run.Same.refl (r : Run) : r.Same r := ⟨rfl, rfl, rfl, fun h => h⟩

theorem Run.Step.sameRun {a : Answer} {w : World} {st : Option (RunId × Input)} (h : r.Step cfg a w stmt r' st) :
    r.Same r' := ⟨h.same.1, h.same.2.1, h.same.2.2, fun _ => h.inFlight⟩

/-- Where a run of the state after a step comes from. -/
inductive Sys.RunOrigin (cfg : Config) (s : Sys) (e : SysEvent) (X : RunId) (r' : Run) : Prop
  | same (hX : s.procs X = some (.run r')) (hne : SysEvent.pid e ≠ some X)
  | acted {a : Answer} {r : Run} {stmt : Stmt} {st : Option (RunId × Input)} (he : e = .act X a)
      (hX : s.procs X = some (.run r)) (hstep : r.Step cfg a s.world stmt r' st)
      (hn : (Proc.run r).next cfg X a s.world = some (stmt, .run r', st.map fun x => ⟨x.1, r.ws, x.2⟩))
  | started {n : Pid} {a : Answer} {p p' : Proc} {stmt : Stmt} {x : Starts} (he : e = .act n a) (hp : s.procs n = some p)
      (hn : p.next cfg n a s.world = some (stmt, p', some x)) (hX : X = x.run) (free : s.procs X = none)
      (hr : r' = .fresh x.ws x.input (p.starter n))
  | halted {r : Run} (he : e = .halt X) (hX : s.procs X = some (.run r)) (hf : r.inFlight = true)
      (hr : r' = { r with phase := .ended false })

theorem Sys.Origin.runOrigin (h : s.Origin cfg e k (.run r')) : s.RunOrigin cfg e k r' := by
  generalize hq : Proc.run r' = q at h
  cases h with
  | same h hk => subst hq; exact .same h hk
  | @acted n a p p' stmt st he hp hn =>
    subst hq
    cases p with
    | run r =>
      obtain ⟨r₁, st', hr, h₁, rfl⟩ := Proc.next_run hn
      cases h₁
      exact .acted he hp hr hn
    | call c => obtain ⟨pc, -, h₁⟩ := Proc.next_call hn; cases h₁
    | request r => obtain ⟨pc, -, h₁⟩ := Proc.next_request hn; cases h₁
    | reconcile r => obtain ⟨pc, -, h₁, -⟩ := Proc.next_reconcile hn; cases h₁
    | gc g => obtain ⟨pc, -, h₁⟩ := Proc.next_gc hn; cases h₁
  | @started n a p p' stmt st he hp hn free =>
    cases hq
    exact .started he hp hn rfl free rfl
  | @arrived n i stmt p he free ha =>
    subst hq
    rcases Arrival.accept_cases ha with
      ⟨_, _, _, -, -, -, h₁⟩ | ⟨-, ⟨_, _, -, h₁⟩ | ⟨_, h₁⟩ | ⟨_, h₁⟩ | h₁⟩ <;> cases h₁
  | @halted n r he hp hf =>
    cases hq
    exact .halted he hp hf rfl

/-- A run after a step is a run before it, later, or one just started. -/
theorem Sys.Origin.run (h : s.Origin cfg e k (.run r')) :
    (∃ r, s.procs k = some (.run r) ∧ r.Same r') ∨
      ∃ n a p p' stmt st, e = .act n a ∧ s.procs n = some p ∧ p.next cfg n a s.world = some (stmt, p', some st) ∧
        k = st.run ∧ s.procs k = none ∧ r' = .fresh st.ws st.input (p.starter n) := by
  cases h.runOrigin with
  | same hX hne => exact .inl ⟨r', hX, .refl r'⟩
  | acted he hX hstep hn => exact .inl ⟨_, hX, hstep.sameRun⟩
  | started he hp hn hX free hr => exact .inr ⟨_, _, _, _, _, _, he, hp, hn, hX, free, hr⟩
  | halted he hX hf hr =>
    subst hr
    exact .inl ⟨_, hX, rfl, rfl, rfl, by rintro ⟨⟩⟩

/-- A run is still there after a step. -/
theorem Sys.run_kept (h : (lifecycle cfg).step s e = some s') (hk : s.procs k = some (.run r)) :
    ∃ r', s'.procs k = some (.run r') ∧ r.Same r' := by
  by_cases hne : SysEvent.pid e = some k
  · cases e with
    | arrive n i =>
      cases hne
      have hs : (controlPlane cfg).Steps s (.arrive k i) s' := Machine.steps_of_step h
      cases hs with
      | arrive free _ => cases hk.symm.trans free
    | act n a =>
      cases hne
      obtain ⟨stmt, p', st, hn, hp', -⟩ := Sys.procs_acted h hk
      obtain ⟨r', st', hr, rfl, -⟩ := Proc.next_run hn
      exact ⟨r', hp', hr.sameRun⟩
    | halt n =>
      cases hne
      have hs : (controlPlane cfg).Steps s (.halt k) s' := Machine.steps_of_step h
      cases hs with
      | halt hp hh =>
        cases hk.symm.trans hp
        simp only [controlPlane, Proc.halt] at hh
        split at hh <;> cases hh
        exact ⟨_, Table.set_procs_self .., rfl, rfl, rfl, by rintro ⟨⟩⟩
    | env e => cases hne
  · exact ⟨r, Sys.procs_kept h hk hne, .refl r⟩

/-- A run that closes with a failure leaves the choice of the state to `stepFinishRun`. -/
def Sys.ClosesPlainly (s : Sys) : Prop := ∀ X r error state, s.procs X = some (.run r) →
  r.phase = .finishing (.failed error state) → state = none

theorem Sys.ClosesPlainly.step (hs : s.ClosesPlainly) (h : (lifecycle cfg).step s e = some s') : s'.ClosesPlainly := by
  intro X r' error state hr' hphase
  cases (Sys.origin h hr').runOrigin with
  | same hX hne => exact hs X r' error state hX hphase
  | started he hp hn hX free hr => subst hr; cases hphase
  | halted he hX hf hr => subst hr; cases hphase
  | @acted a r stmt st he hr hstep hn =>
    cases hstep with
    | @body b d at_ hb =>
      have hclose : r.afterBody d.next = .finishing (.failed error state) := hphase
      cases hd : d.next with
      | goto b' => simp [Run.afterBody, hd] at hclose
      | returns =>
        rcases r.close_cases .ok with ⟨ok, he⟩ | he <;> simp [Run.afterBody, hd, he] at hclose
      | throws error' =>
        rcases r.close_cases (.failed error' none) with ⟨ok, he⟩ | he <;> simp [Run.afterBody, hd, he] at hclose
        exact hclose.2.symm
    | finished at_ ok => cases hphase
    | retried at_ => cases hphase; rfl

end Zedspaces.Lifecycle
