/-
One lifecycle run for each workspace. `startLifecycle` checks under a lock that the row names no active
run and then admits itself; but the lock expires after 30 s and the admission does not look at the row
again, so two slow calls both pass the check and both start a run (`two_lifecycle_runs`). gc starts its
deletions without the check.

With a truthful run store at most one run is in flight, children awaited by their parent aside, when every
admission and every start of a deletion by gc finds a row that names nothing active and no such deletion in
flight, the sweep takes no token from an admission in progress, and no parent loses a child in flight.
-/
import Zedspaces.Lifecycle.Admission
import Zedspaces.Lifecycle.Children

namespace Zedspaces.Lifecycle

open Lib Lib.System

variable {cfg : Config} {w : World} {stmt : Stmt} {id : WsId} {s s' : Sys} {e : SysEvent}

/-- The run `X` is in flight. -/
def Sys.inFlight (s : Sys) (X : RunId) : Bool := match s.procs X with
  | some (.run r) => r.inFlight
  | _ => false

/-- A deletion that gc has started: a run with a parent that closes the row itself. -/
def Run.gcStarted (r : Run) : Bool := match r.starter with
  | .parent _ => !r.input.child
  | .call _ => false

/-- The process is a deletion of `id` started by gc and in flight. -/
def Proc.deletes (id : WsId) : Proc → Bool
  | .run r => r.inFlight && r.gcStarted && decide (r.ws = id)
  | _ => false

/-- A deletion of `id` started by gc is in flight. -/
def Sys.BeingDeleted (s : Sys) (id : WsId) : Prop := ∃ n p, s.procs n = some p ∧ p.deletes id = true

instance (s : Sys) (id : WsId) : Decidable (s.BeingDeleted id) :=
  inferInstanceAs (Decidable (∃ n p, s.procs n = some p ∧ p.deletes id = true))

/-- The row of `id` names nothing active, and gc does not delete the workspace. -/
def Sys.Free (s : Sys) (id : WsId) : Prop := ¬ s.RowActive id ∧ ¬ s.BeingDeleted id

instance (s : Sys) (id : WsId) : Decidable (s.Free id) := inferInstanceAs (Decidable (_ ∧ _))

/-- The run is a child of a run in flight that waits for it. -/
def Sys.Awaited (s : Sys) (X : RunId) : Prop := ∃ m r q, s.procs X = some (.run r) ∧ r.starter = .parent m ∧
  s.procs m = some (.run q) ∧ q.inFlight = true ∧ (Proc.run q).child? = some X

/-- The run `X` of `id` is in flight, and not as an awaited child. -/
structure Sys.TopLevel (s : Sys) (id : WsId) (X : RunId) : Prop where
  inFlight : s.inFlight X = true
  ws : ∃ r, s.procs X = some (.run r) ∧ r.ws = id
  alone : ¬ s.Awaited X

def Answer.isOk : Answer → Bool
  | .ok => true
  | _ => false

/-- No step of a parent, and no end of it, loses a child in flight. -/
def LosesNoChild (s : Sys) (e : SysEvent) : Prop := match e with
  | .act n a => match s.procs n with
    | some (.run r) => match (Proc.run r).childPc with
      | some (.record X) => s.inFlight X = true → a.isOk = true
      | _ => True
    | _ => True
  | .halt n => (s.procs n).all (fun p => p.child?.all fun X => !s.inFlight X) = true
  | _ => True

/-- An admission, and the start of a deletion by gc, finds the workspace free; the sweep takes no token from an
admission in progress. -/
def AdmitsFree (s : Sys) (e : SysEvent) : Prop := match s.acting e with
  | some (.reconcile ⟨row, .release _⟩) => row.ref.isAdmitting = true → ¬ s.RefActive row.ws row.ref
  | some (.gc ⟨_, .delete (id :: _) _ .start⟩) => s.Free id
  | some p => match p.callAt with
    | some (id, .admission _ _) => s.Free id
    | _ => True
  | none => True

/-- The condition for one run at a time. -/
structure OneAtATime (s : Sys) (e : SysEvent) : Prop where
  truthful : Truthful s e
  frees : AdmitsFree s e
  child : LosesNoChild s e

instance (s : Sys) (e : SysEvent) : Decidable (LosesNoChild s e) := by
  unfold LosesNoChild
  rcases e with _ | ⟨n, a⟩ | _ <;> try infer_instance
  dsimp only
  generalize s.procs n = p
  rcases p with _ | r | _ <;> try infer_instance
  dsimp only
  generalize (Proc.run r).childPc = pc
  rcases pc with _ | _ | _ <;> infer_instance

instance (s : Sys) (e : SysEvent) : Decidable (AdmitsFree s e) := by
  have hcall (p : Proc) : Decidable (match p.callAt with
      | some (id, .admission _ _) => s.Free id
      | _ => True) := by
    generalize p.callAt = call
    rcases call with _ | ⟨_, _ | _⟩ <;> infer_instance
  unfold AdmitsFree
  generalize s.acting e = p
  rcases p with _ | _ | _ | _ | ⟨_, _ | _⟩ | ⟨_, _ | _ | _ | _ | ⟨_ | _, _, _ | _⟩ | _⟩ <;> infer_instance

instance (s : Sys) (e : SysEvent) : Decidable (OneAtATime s e) :=
  decidable_of_iff (Truthful s e ∧ AdmitsFree s e ∧ LosesNoChild s e)
    ⟨fun h => ⟨h.1, h.2.1, h.2.2⟩, fun h => ⟨h.1, h.2, h.3⟩⟩

/-! ## The invariant -/

/-- Every run and every admission in progress is the only one of its workspace. -/
structure Sys.OneRun (s : Sys) : Prop where
  owned : s.Owned
  latestCall : ∀ n p id, s.procs n = some p → p.callAt = some (id, .start) → s.world.hist.lastAdmitted id = some n
  latestRun : ∀ X r c, s.procs X = some (.run r) → r.inFlight = true → r.starter = .call c →
    s.world.hist.lastAdmitted r.ws = some c
  noCall : ∀ X r n p, s.procs X = some (.run r) → r.inFlight = true → r.gcStarted = true → s.procs n = some p →
    p.callAt ≠ some (r.ws, .start)
  noRun : ∀ X r Y q c, s.procs X = some (.run r) → r.inFlight = true → r.gcStarted = true →
    s.procs Y = some (.run q) → q.inFlight = true → q.starter = .call c → q.ws ≠ r.ws
  noDeletion : ∀ X r Y q, s.procs X = some (.run r) → r.inFlight = true → r.gcStarted = true →
    s.procs Y = some (.run q) → q.inFlight = true → q.gcStarted = true → q.ws = r.ws → Y = X
  awaited : ∀ X r m, s.procs X = some (.run r) → r.inFlight = true → r.starter = .parent m → r.input.child = true →
    ∃ q c, s.procs m = some (.run q) ∧ (Proc.run q).childPc = some c ∧ (c = .record X ∨ ∃ t, c = .await X t)
  closing : ∀ X r outcome, s.procs X = some (.run r) → r.phase = .finishing outcome → r.input.child = false
  named : ∀ id row X, s.world.rows id = some row → row.workflowRunId = some (.run X) → ∃ c, s.StartedBy c X
  swept : ∀ n row pc X, s.procs n = some (.reconcile ⟨row, pc⟩) → row.ref = .run X →
    ∃ r, s.procs X = some (.run r) ∧ ∀ error, pc = .release error → r.inFlight = false

theorem Sys.inFlight_iff {X : RunId} : s.inFlight X = true ↔ ∃ r, s.procs X = some (.run r) ∧ r.inFlight = true := by
  unfold inFlight
  constructor
  · intro h
    split at h
    · rename_i r hr
      exact ⟨r, hr, h⟩
    · cases h
  · rintro ⟨r, hr, hf⟩
    rw [hr]
    exact hf

/-- Under the invariant only one run of a workspace is in flight at the top. -/
theorem Sys.OneRun.unique (hi : s.CallsInOrder) (h : s.OneRun) {X Y : RunId} (hX : s.TopLevel id X)
    (hY : s.TopLevel id Y) : X = Y := by
  obtain ⟨r, hr, hf⟩ := Sys.inFlight_iff.1 hX.inFlight
  obtain ⟨q, hq, hg⟩ := Sys.inFlight_iff.1 hY.inFlight
  have hws : r.ws = id := by
    obtain ⟨r', hr', h⟩ := hX.ws
    cases hr.symm.trans hr'
    exact h
  have hws' : q.ws = id := by
    obtain ⟨q', hq', h⟩ := hY.ws
    cases hq.symm.trans hq'
    exact h
  have gcOrCall : ∀ {Z : RunId} {t : Run}, s.TopLevel id Z → s.procs Z = some (.run t) → t.inFlight = true →
      t.gcStarted = true ∨ ∃ c, t.starter = .call c := by
    intro Z t hZ ht hft
    cases hst : t.starter with
    | call c => exact .inr ⟨c, rfl⟩
    | parent m =>
      left
      cases hc : t.input.child with
      | false => simp [Run.gcStarted, hst, hc]
      | true =>
        obtain ⟨p, c, hp, hcp, hcZ⟩ := h.awaited Z t m ht hft hst hc
        refine absurd ⟨m, t, p, ht, hst, hp, Run.inFlight_of_childPc hcp, ?_⟩ hZ.alone
        rcases hcZ with rfl | ⟨t, rfl⟩ <;> simp [Proc.child?, hcp, ChildPc.run?]
  rcases gcOrCall hX hr hf with hgc | ⟨c, hc⟩
  · rcases gcOrCall hY hq hg with hgc' | ⟨c', hc'⟩
    · exact (h.noDeletion X r Y q hr hf hgc hq hg hgc' (hws'.trans hws.symm)).symm
    · exact absurd (hws'.trans hws.symm) (h.noRun X r Y q c' hr hf hgc hq hg hc')
  · rcases gcOrCall hY hq hg with hgc' | ⟨c', hc'⟩
    · exact absurd (hws.trans hws'.symm) (h.noRun Y q X r c hq hg hgc' hr hf hc)
    · have hl := h.latestRun X r c hr hf hc
      have hl' := h.latestRun Y q c' hq hg hc'
      rw [hws] at hl
      rw [hws', hl] at hl'
      cases hl'
      exact hi.unique c X Y ⟨r, hr, hc⟩ ⟨q, hq, hc'⟩

theorem AdmitsFree.call {n : Pid} {p : Proc} {a : Answer} {ref : Option RunRef} {state : WorkspaceState}
    (h : AdmitsFree s (.act n a)) (hp : s.procs n = some p) (hc : p.callAt = some (id, .admission ref state)) :
    s.Free id := by
  unfold AdmitsFree at h
  simp only [Sys.acting, hp] at h
  cases p with
  | call c => simpa only [hc] using h
  | request r => simpa only [hc] using h
  | _ => cases hc

theorem AdmitsFree.gc {n : Pid} {g : Gc} {a : Answer} {queue : List WsId} {known : List SandboxName}
    (h : AdmitsFree s (.act n a)) (hp : s.procs n = some (.gc g)) (hc : g.pc = .delete (id :: queue) known .start) :
    s.Free id := by
  obtain ⟨now, pc⟩ := g
  cases hc
  simpa only [AdmitsFree, Sys.acting, hp] using h

/-- The row of a call that starts its run names that call. -/
theorem Sys.OneRun.rowActive_call (hi : s.CallsInOrder) (h : s.OneRun) {n : Pid} {p : Proc} (hp : s.procs n = some p)
    (hc : p.callAt = some (id, .start)) : s.RowActive id := by
  obtain ⟨row, hrow⟩ := hi.seen n p id _ hp hc rfl
  have hname := h.owned.starting n p id row hp hc (h.latestCall n p id hp hc) hrow
  exact Sys.rowActive_iff.2 ⟨row, _, hrow, hname, Sys.refActive_starting hp hc⟩

/-- The row of a run started by a call names it while it is in flight. -/
theorem Sys.OneRun.rowActive_run (hi : s.CallsInOrder) (h : s.OneRun) {X : RunId} {r : Run} {c : CallId}
    (hX : s.procs X = some (.run r)) (hf : r.inFlight = true) (hc : r.starter = .call c) : s.RowActive r.ws := by
  obtain ⟨row, hrow⟩ := hi.home X r c hX hc
  rcases h.owned.running X r c row hX hf hc (h.latestRun X r c hX hf hc) hrow with hname | hname
  · exact Sys.rowActive_iff.2 ⟨row, _, hrow, hname, Sys.refActive_started hX hf hc⟩
  · exact Sys.rowActive_iff.2 ⟨row, _, hrow, hname, Sys.refActive_run hX hf⟩

/-- A deletion started by gc is alone, so the row names nothing active beside it. -/
theorem Sys.OneRun.not_rowActive_of_gcStarted (h : s.OneRun) {X : RunId} {r : Run} (hX : s.procs X = some (.run r))
    (hf : r.inFlight = true) (hgc : r.gcStarted = true) : ¬ s.RowActive r.ws := by
  intro ha
  obtain ⟨row, ref, hrow, href, n, p, hp, hactive⟩ := Sys.rowActive_iff.1 ha
  cases ref with
  | run m =>
    obtain ⟨c, q, hq, hc⟩ := h.named _ row m hrow href
    cases p with
    | run q' =>
      simp only [Proc.active, Bool.and_eq_true, decide_eq_true_eq] at hactive
      obtain ⟨hf', hws, rfl⟩ := hactive
      cases hp.symm.trans hq
      exact h.noRun X r m q c hX hf hgc hq hf' hc hws
    | _ => cases hactive
  | admitting c =>
    rcases Proc.active_admitting hactive with ⟨q, rfl, hf', hws, hc⟩ | ⟨rfl, hc⟩
    · exact h.noRun X r n q c hX hf hgc hp hf' hc hws
    · exact h.noCall X r n p hX hf hgc hp hc

/-- Under the condition nobody takes its name from an active owner. -/
theorem OneAtATime.keepsOwner (h : s.OneRun) (hg : OneAtATime s e) : KeepsOwner s e := by
  unfold KeepsOwner
  split
  case h_1 id input starter outcome hacting =>
    obtain ⟨n, hp⟩ : ∃ n, s.procs n = some (.run ⟨id, input, starter, .finishing outcome⟩) := by
      cases e with
      | act n a => exact ⟨n, hacting⟩
      | _ => cases hacting
    have hchild : input.child = false := h.closing n _ outcome hp rfl
    cases hst : starter with
    | call c =>
      subst hst
      exact .inl (Sys.latest_iff.2 ⟨c, h.latestRun n _ c hp rfl rfl, rfl⟩)
    | parent m =>
      subst hst
      exact .inr (h.not_rowActive_of_gcStarted hp rfl (by simp [Run.gcStarted, hchild]))
  case h_2 row error hacting =>
    obtain ⟨n, hp⟩ : ∃ n, s.procs n = some (.reconcile ⟨row, .release error⟩) := by
      cases e with
      | act n a => exact ⟨n, hacting⟩
      | _ => cases hacting
    intro hact
    cases href : row.ref with
    | admitting c =>
      have hfree := hg.frees
      unfold AdmitsFree at hfree
      rw [hacting] at hfree
      exact hfree (by rw [href]; rfl) hact
    | run m =>
      obtain ⟨r, hr, hf⟩ := h.swept n row _ m hp href
      rw [href] at hact
      obtain ⟨k, p, hk, hactive⟩ := hact
      cases p with
      | run q =>
        simp only [Proc.active, Bool.and_eq_true, decide_eq_true_eq] at hactive
        obtain ⟨hf', -, rfl⟩ := hactive
        cases hk.symm.trans hr
        cases hf'.symm.trans (hf error rfl)
      | _ => cases hactive
  case h_3 => trivial

/-! ## Steps -/

/-- Who starts a run: a call, a parent that is a run itself, or gc. -/
inductive Proc.StartsRun (n : Pid) (p p' : Proc) (x : Starts) : Prop
  | call (hc : p.callAt = some (x.ws, .start)) (hst : p.starter n = .call n)
  | parent {q : Run} (hp : p = .run q) (hin : x.input.child = true) (hws : x.ws = q.ws)
      (hp' : p'.childPc = some (.record x.run))
  | gc {g : Gc} {queue : List WsId} {known : List SandboxName} (hp : p = .gc g)
      (hpc : g.pc = .delete (x.ws :: queue) known .start) (hin : x.input = .deleteWorkspace false)

theorem Proc.startsRun_of_next {n : Pid} {p p' : Proc} {a : Answer} {x : Starts}
    (h : p.next cfg n a w = some (stmt, p', some x)) : Proc.StartsRun n p p' x := by
  cases p with
  | gc g =>
    obtain ⟨queue, known, hpc, hin, -⟩ := Gc.starts_of_next h
    exact .gc rfl hpc hin
  | run q =>
    obtain ⟨r', st', -, rfl, -⟩ := Proc.next_run h
    cases Run.childStep_of_next h with
    | child hc hin hstep hst hgoto hout =>
      cases hstep <;> cases hst
      exact .parent rfl hin rfl (hgoto _ rfl)
    | other hc hst => cases hst
  | reconcile r => obtain ⟨pc, -, -, hst⟩ := Proc.next_reconcile h; cases hst
  | call c | request r =>
    cases Proc.callStep_of_next h with
    | call hc hstep hp' =>
      cases hstep with
      | start => exact .call hc rfl
    | other hp' hs hst => cases hst x rfl

section
variable (hg : OneAtATime s e) (h : (lifecycle cfg).step s e = some s')
include hg h

/-- A call at its start was there before, or it has just found the workspace free. -/
theorem Sys.callStart_step {n : Pid} {q : Proc} (hq : s'.procs n = some q) (hc : q.callAt = some (id, .start)) :
    (∃ p, s.procs n = some p ∧ p.callAt = some (id, .start)) ∨ (s.Free id ∧ ∃ a p, e = .act n a ∧ s.procs n = some p ∧
      p.callAt ≠ none) := by
  cases Sys.callOrigin h hq hc with
  | arrived free hpc => cases hpc
  | same hp hc hfree => exact .inl ⟨_, hp, hc⟩
  | stepped he hp hc hn hstep =>
    subst he
    cases hstep with
    | admission => exact .inr ⟨hg.frees.call hp hc, _, _, rfl, hp, by simp [hc]⟩
    | early hs h₁ h₂ => cases h₂

/-- A deletion started by gc was there before, or gc has just found the workspace free. -/
theorem Sys.gcStarted_step {X : RunId} {r' : Run} (hX : s'.procs X = some (.run r')) (hf : r'.inFlight = true)
    (hgc : r'.gcStarted = true) :
    (∃ r, s.procs X = some (.run r) ∧ r.inFlight = true ∧ r.gcStarted = true ∧ r.ws = r'.ws) ∨
      (s.Free r'.ws ∧ ∃ n a g stmt p' x, e = .act n a ∧ s.procs n = some (.gc g) ∧
        (Proc.gc g).next cfg n a s.world = some (stmt, p', some x) ∧ x.run = X) := by
  rcases (Sys.origin h hX).run with ⟨r, hr, hsame⟩ | ⟨n, a, p, p', stmt₁, x, rfl, hp, hn, rfl, -, rfl⟩
  · refine .inl ⟨r, hr, hsame.inFlight hf, ?_, hsame.ws.symm⟩
    simpa [Run.gcStarted, hsame.starter, hsame.input] using hgc
  · cases Proc.startsRun_of_next hn with
    | call hcall hst => simp [Run.gcStarted, Run.fresh, hst] at hgc
    | parent hp' hin => subst hp'; simp [Run.gcStarted, Run.fresh, Proc.starter, hin] at hgc
    | gc hp' hpc hin =>
      subst hp'
      exact .inr ⟨hg.frees.gc hp hpc, n, a, _, _, _, x, rfl, hp, hn, rfl⟩

variable (hi : s.CallsInOrder) (ho : s.OneRun)
include hi ho

theorem Sys.OneRun.latestCall_step {n : Pid} {q : Proc} (hq : s'.procs n = some q) (hc : q.callAt = some (id, .start)) :
    s'.world.hist.lastAdmitted id = some n := by
  obtain ⟨stmt, hperf, hw⟩ := Sys.world_step h
  rw [hw]
  cases Sys.callOrigin h hq hc with
  | arrived free hpc => cases hpc
  | @stepped a p input pc₀ stmt₁ st he hp hc hn hstep =>
    subst he
    cases hperf with
    | act hp₁ hn₁ =>
      cases hp.symm.trans hp₁
      cases hn.symm.trans hn₁
      cases hstep with
      | admission => simp [Stmt.exec, Lifecycle.admitRun]
      | early hs h₁ h₂ => cases h₂
  | same hp hc hfree =>
    rw [Stmt.exec_lastAdmitted]
    · exact ho.latestCall n _ id hp hc
    · rintro c rfl
      obtain ⟨a, p₁, ref, state, rfl, hp₁, hc₁⟩ := hperf.admitRun_of
      exact (hg.frees.call hp₁ hc₁).1 (ho.rowActive_call hi hp hc)

theorem Sys.OneRun.latestRun_step {X : RunId} {r' : Run} {c : CallId} (hX : s'.procs X = some (.run r'))
    (hf : r'.inFlight = true) (hc : r'.starter = .call c) : s'.world.hist.lastAdmitted r'.ws = some c := by
  obtain ⟨stmt, hperf, hw⟩ := Sys.world_step h
  rw [hw]
  rcases (Sys.origin h hX).run with ⟨r, hr, hsame⟩ | ⟨n, a, p, p', stmt₁, x, rfl, hp, hn, rfl, -, rfl⟩
  · have hcr : r.starter = .call c := hsame.starter.symm.trans hc
    rw [hsame.ws, Stmt.exec_lastAdmitted]
    · exact ho.latestRun X r c hr (hsame.inFlight hf) hcr
    · rintro c₁ rfl
      obtain ⟨a, p₁, ref, state, rfl, hp₁, hc₁⟩ := hperf.admitRun_of
      exact (hg.frees.call hp₁ hc₁).1 (ho.rowActive_run hi hr (hsame.inFlight hf) hcr)
  · cases Proc.startsRun_of_next hn with
    | call hcall hst =>
      cases hst.symm.trans hc
      rw [Stmt.exec_lastAdmitted]
      · exact ho.latestCall _ p _ hp hcall
      · rintro c₁ rfl
        obtain ⟨a₁, p₁, ref, state, he, hp₁, hc₁⟩ := hperf.admitRun_of
        cases he
        cases hp.symm.trans hp₁
        cases hcall.symm.trans hc₁
    | parent hp' | gc hp' => subst hp'; cases hc

theorem Sys.OneRun.noCall_step {X : RunId} {r' : Run} {n : Pid} {q : Proc} (hX : s'.procs X = some (.run r'))
    (hf : r'.inFlight = true) (hgc : r'.gcStarted = true) (hq : s'.procs n = some q) :
    q.callAt ≠ some (r'.ws, .start) := by
  intro hc
  rcases Sys.gcStarted_step hg h hX hf hgc with ⟨r, hr, hfr, hgr, hws⟩ | ⟨hfree, m, a, g, stmt, p', x, rfl, hm, -, -⟩
  · rcases Sys.callStart_step hg h hq hc with ⟨p, hp, hcp⟩ | ⟨hfree, -⟩
    · exact ho.noCall X r n p hr hfr hgr hp (hws ▸ hcp)
    · exact hfree.2 ⟨X, _, hr, by simp [Proc.deletes, hfr, hgr, hws]⟩
  · rcases Sys.callStart_step hg h hq hc with ⟨p, hp, hcp⟩ | ⟨-, a', p, he, hp, hne⟩
    · exact hfree.1 (ho.rowActive_call hi hp hcp)
    · cases he
      cases hp.symm.trans hm
      exact hne rfl

theorem Sys.OneRun.noRun_step {X Y : RunId} {r' q' : Run} {c : CallId} (hX : s'.procs X = some (.run r'))
    (hf : r'.inFlight = true) (hgc : r'.gcStarted = true) (hY : s'.procs Y = some (.run q')) (hfq : q'.inFlight = true)
    (hc : q'.starter = .call c) : q'.ws ≠ r'.ws := by
  intro hws'
  rcases Sys.gcStarted_step hg h hX hf hgc with ⟨r, hr, hfr, hgr, hws⟩ | ⟨hfree, m, a, g, stmt, p', x, rfl, hm, hn, rfl⟩
  · rcases (Sys.origin h hY).run with ⟨q, hq, hsame⟩ | ⟨n, a, p, p', stmt₁, x, rfl, hp, hn, rfl, -, rfl⟩
    · refine ho.noRun X r Y q c hr hfr hgr hq (hsame.inFlight hfq) (hsame.starter.symm.trans hc) ?_
      rw [← hsame.ws, hws', hws]
    · cases Proc.startsRun_of_next hn with
      | call hcall hst => exact ho.noCall X r n p hr hfr hgr hp (by rw [hws, ← hws']; exact hcall)
      | parent hp' | gc hp' => subst hp'; cases hc
  · rcases (Sys.origin h hY).run with ⟨q, hq, hsame⟩ | ⟨n, a', p, p', stmt₁, x', he, hp, hn', rfl, -, rfl⟩
    · refine hfree.1 ?_
      rw [← hws', hsame.ws]
      exact ho.rowActive_run hi hq (hsame.inFlight hfq) (hsame.starter.symm.trans hc)
    · cases he
      cases hp.symm.trans hm
      cases hc

omit hi in
theorem Sys.OneRun.noDeletion_step {X Y : RunId} {r' q' : Run} (hX : s'.procs X = some (.run r'))
    (hf : r'.inFlight = true) (hgc : r'.gcStarted = true) (hY : s'.procs Y = some (.run q')) (hfq : q'.inFlight = true)
    (hgq : q'.gcStarted = true) (hws' : q'.ws = r'.ws) : Y = X := by
  rcases Sys.gcStarted_step hg h hX hf hgc with ⟨r, hr, hfr, hgr, hws⟩ | ⟨hfree, m, a, g, stmt, p', x, rfl, hm, hn, rfl⟩
  · rcases Sys.gcStarted_step hg h hY hfq hgq with ⟨q, hq, hfq₀, hgq₀, hws₀⟩ | ⟨hfree, -⟩
    · exact ho.noDeletion X r Y q hr hfr hgr hq hfq₀ hgq₀ (by rw [hws₀, hws', hws])
    · refine absurd ⟨X, _, hr, ?_⟩ hfree.2
      simp [Proc.deletes, hfr, hgr, hws, hws']
  · rcases Sys.gcStarted_step hg h hY hfq hgq with ⟨q, hq, hfq₀, hgq₀, hws₀⟩ | ⟨-, m', a', g', _, _, x', he, hm', hn', rfl⟩
    · refine absurd ⟨Y, _, hq, ?_⟩ hfree.2
      simp [Proc.deletes, hfq₀, hgq₀, hws₀, hws']
    · cases he
      cases hm.symm.trans hm'
      cases hn.symm.trans hn'
      rfl

end

/-- A parent that waits for a child in flight goes on waiting for it. -/
theorem Run.await_kept {m : Pid} {a : Answer} {X : RunId} {r q q' : Run} {c : ChildPc} {st : Option Starts}
    (hg : OneAtATime s (.act m a)) (hm : s.procs m = some (.run q)) (hX : s.procs X = some (.run r))
    (hf : r.inFlight = true) (hc : (Proc.run q).childPc = some c) (hcX : c = .record X ∨ ∃ t, c = .await X t)
    (hn : (Proc.run q).next cfg m a s.world = some (stmt, .run q', st)) :
    ∃ c', (Proc.run q').childPc = some c' ∧ (c' = .record X ∨ ∃ t, c' = .await X t) := by
  have hfX : s.inFlight X = true := Sys.inFlight_iff.2 ⟨r, hX, hf⟩
  cases Run.childStep_of_next hn with
  | other hnone => cases hc.symm.trans hnone
  | child hc' hin hstep hst hgoto hout =>
    cases hc.symm.trans hc'
    rcases hcX with rfl | ⟨t, rfl⟩
    · have hlose := hg.child
      simp only [LosesNoChild, hm, hc] at hlose
      cases hstep with
      | stored => exact ⟨_, hgoto _ rfl, .inr ⟨_, rfl⟩⟩
      | crashed => cases hlose hfX
      | notStored => cases hlose hfX
    · have hasks : (Proc.run q).asks = some (.run X) := by simp [Proc.asks, hc]
      cases hstep with
      | settled hover =>
        have htrue := hg.truthful.inFlight hm hasks hX hf
        rcases hover with rfl | rfl | rfl <;> rcases htrue with htrue | htrue <;> cases htrue
      | waits => exact ⟨_, hgoto _ rfl, .inr ⟨_, rfl⟩⟩
      | lost =>
        have htrue := hg.truthful.inFlight hm hasks hX hf
        rcases htrue with htrue | htrue <;> cases htrue

theorem Sys.OneRun.awaited_step (ho : s.OneRun) (hg : OneAtATime s e) (h : (lifecycle cfg).step s e = some s') {X : RunId}
    {r' : Run} {m : Pid} (hX : s'.procs X = some (.run r')) (hf : r'.inFlight = true) (hst : r'.starter = .parent m)
    (hin : r'.input.child = true) :
    ∃ q c, s'.procs m = some (.run q) ∧ (Proc.run q).childPc = some c ∧ (c = .record X ∨ ∃ t, c = .await X t) := by
  rcases (Sys.origin h hX).run with ⟨r, hr, hsame⟩ | ⟨n, a, p, p', stmt₁, x, rfl, hp, hn, rfl, -, rfl⟩
  · have hfr := hsame.inFlight hf
    obtain ⟨q, c, hq, hc, hcX⟩ := ho.awaited X r m hr hfr (hsame.starter.symm.trans hst) (hsame.input ▸ hin)
    by_cases hpid : SysEvent.pid e = some m
    · cases e with
      | arrive n i =>
        cases hpid
        obtain ⟨q', hq', -⟩ := Sys.run_kept h hq
        cases Sys.origin h hq' with
        | arrived he free => cases he; cases free.symm.trans hq
        | same _ hne => exact absurd rfl hne
        | acted he | halted he => cases he
        | started he => cases he
      | act n a =>
        cases hpid
        obtain ⟨stmt, p', st, hn, hp', -⟩ := Sys.procs_acted h hq
        obtain ⟨q', st', -, rfl, -⟩ := Proc.next_run hn
        obtain ⟨c', hc', hcX'⟩ := Run.await_kept hg hq hr hfr hc hcX hn
        exact ⟨q', c', hp', hc', hcX'⟩
      | halt n =>
        cases hpid
        have hlose := hg.child
        have hchild : (Proc.run q).child? = some X := by
          rcases hcX with rfl | ⟨t, rfl⟩ <;> simp [Proc.child?, hc, ChildPc.run?]
        simp [LosesNoChild, hq, hchild, Sys.inFlight_iff.2 ⟨r, hr, hfr⟩] at hlose
      | env e => cases hpid
    · exact ⟨q, c, Sys.procs_kept h hq hpid, hc, hcX⟩
  · cases Proc.startsRun_of_next hn with
    | call hcall hst' => cases hst'.symm.trans hst
    | gc hp' hpc hin' =>
      have hfalse : x.input.child = true := hin
      rw [hin'] at hfalse
      cases hfalse
    | parent hp' hin' hws hchild =>
      subst hp'
      cases hst
      obtain ⟨stmt, p'', st, hn', hp'', -⟩ := Sys.procs_acted h hp
      cases hn.symm.trans hn'
      obtain ⟨q', st', -, rfl, -⟩ := Proc.next_run hn
      exact ⟨q', _, hp'', hchild, .inl rfl⟩

theorem Run.close_finishing {r : Run} {outcome outcome' : RunOutcome} (h : r.close outcome = .finishing outcome') :
    r.input.child = false := by
  unfold close at h
  split at h
  · cases h
  · rename_i hc
    simpa using hc

theorem Sys.OneRun.closing_step (ho : s.OneRun) (h : (lifecycle cfg).step s e = some s') {X : RunId} {r' : Run}
    {outcome : RunOutcome} (hX : s'.procs X = some (.run r')) (hphase : r'.phase = .finishing outcome) :
    r'.input.child = false := by
  cases (Sys.origin h hX).runOrigin with
  | same hX hne => exact ho.closing X r' outcome hX hphase
  | started he hp hn hX free hr => subst hr; cases hphase
  | halted he hX hf hr => subst hr; cases hphase
  | @acted a r stmt st he hr hstep hn =>
    cases hstep with
    | @body b d at_ hb =>
      have hclose : r.afterBody d.next = .finishing outcome := hphase
      show r.input.child = false
      cases hd : d.next with
      | goto b' => simp [Run.afterBody, hd] at hclose
      | returns => exact Run.close_finishing (by simpa [Run.afterBody, hd] using hclose)
      | throws error => exact Run.close_finishing (by simpa [Run.afterBody, hd] using hclose)
    | finished at_ ok => cases hphase
    | retried at_ => exact ho.closing X r _ hr at_

/-- A row names only runs that a call has started. -/
theorem Sys.OneRun.named_step (hi : s.CallsInOrder) (ho : s.OneRun) (h : (lifecycle cfg).step s e = some s')
    {row' : Workspace} {X : RunId} (hrow' : s'.world.rows id = some row') (hname : row'.workflowRunId = some (.run X)) :
    ∃ c, s'.StartedBy c X := by
  obtain ⟨stmt, hperf, hw⟩ := Sys.world_step h
  rw [hw] at hrow'
  rcases Stmt.exec_rows_cases hrow' with ⟨row, hrow, rfl⟩ | ⟨release, idle, -, rfl⟩
  · rcases Stmt.onRow_workflowRunId cfg s.world id stmt row with hk | hset
    · obtain ⟨c, hc⟩ := ho.named id row X hrow (hk.symm.trans hname)
      exact ⟨c, hc.kept h⟩
    · rw [hname] at hset
      cases hset with
      | record hold =>
        obtain ⟨a, p, rfl, hp, hc⟩ := hperf.recordRun_of
        exact ⟨_, (hi.recording _ p id X hp hc).kept h⟩
  · cases hname

/-- The sweep decides to release a run only on a status that is not that of a run in flight. -/
theorem ReconcilePc.next_release {row : StuckRow} {pc : ReconcilePc} {a : Answer} {error : Option String}
    (h : pc.next row a = some (stmt, .release error)) :
    pc = .status ∧ ∃ st, a = .status st ∧ st ≠ .pending ∧ st ≠ .running := by
  revert h
  fun_cases ReconcilePc.next row pc a
  case case2 st hadm =>
    rintro h
    refine ⟨rfl, st, rfl, ?_, ?_⟩
    all_goals rintro rfl; cases h
  all_goals rintro ⟨⟩

/-- A run that the sweep is about to release is over. -/
theorem Sys.OneRun.swept_step (ho : s.OneRun) (hg : OneAtATime s e) (h : (lifecycle cfg).step s e = some s') {n : Pid}
    {row : StuckRow} {pc : ReconcilePc} {X : RunId} (hn : s'.procs n = some (.reconcile ⟨row, pc⟩))
    (href : row.ref = .run X) :
    ∃ r, s'.procs X = some (.run r) ∧ ∀ error, pc = .release error → r.inFlight = false := by
  have later : ∀ {r r' : Run}, r.Same r' → r.inFlight = false → r'.inFlight = false := fun hsame hf =>
    Bool.eq_false_iff.2 fun hf' => by cases hf.symm.trans (hsame.inFlight hf')
  generalize hq : Proc.reconcile ⟨row, pc⟩ = q at hn
  cases Sys.origin h hn with
  | same hp hne =>
    subst hq
    obtain ⟨r, hr, hf⟩ := ho.swept n row pc X hp href
    obtain ⟨r', hr', hsame⟩ := Sys.run_kept h hr
    exact ⟨r', hr', fun error hpc => later hsame (hf error hpc)⟩
  | started he hp hn free => cases hq
  | halted he hp hf => cases hq
  | @arrived n i stmt p he free ha =>
    subst hq
    cases i with
    | reconcile id =>
      obtain ⟨row₀, hrow₀, hi⟩ := Option.bind_eq_some_iff.1 ha
      obtain ⟨ref, hrun, hi⟩ := Option.map_eq_some_iff.1 hi
      cases hi
      cases href
      obtain ⟨c, r, hr, -⟩ := ho.named id row₀ X (World.liveRow_eq_some.1 hrow₀).1 hrun
      obtain ⟨r', hr', -⟩ := Sys.run_kept h hr
      exact ⟨r', hr', by rintro error ⟨⟩⟩
    | create id release idle =>
      simp only [Arrival.accept] at ha
      split at ha <;> cases ha
    | start id input => simp only [Arrival.accept] at ha; split at ha <;> cases ha
    | connect id reason tab build => cases ha
    | gc => cases ha
  | @acted n a p p' stmt st he hp hnext =>
    subst hq
    subst he
    cases p with
    | reconcile r₀ =>
      obtain ⟨pc', hpc, he, -⟩ := Proc.next_reconcile hnext
      obtain ⟨row₀, pc₀⟩ := r₀
      cases he
      obtain ⟨r, hr, hf⟩ := ho.swept n row₀ pc₀ X hp href
      obtain ⟨r', hr', hsame⟩ := Sys.run_kept h hr
      refine ⟨r', hr', ?_⟩
      rintro error rfl
      obtain ⟨rfl, st, rfl, hne, hne'⟩ := ReconcilePc.next_release hpc
      refine Bool.eq_false_iff.2 fun hf' => ?_
      rcases hg.truthful.inFlight hp (congrArg some href) hr (hsame.inFlight hf') with ht | ht
      · exact hne ht
      · exact hne' ht
    | run r => obtain ⟨_, _, -, he, -⟩ := Proc.next_run hnext; cases he
    | call c => obtain ⟨_, -, he⟩ := Proc.next_call hnext; cases he
    | request r => obtain ⟨_, -, he⟩ := Proc.next_request hnext; cases he
    | gc g => obtain ⟨_, -, he⟩ := Proc.next_gc hnext; cases he

theorem Sys.OneRun.step (hi : s.CallsInOrder) (ho : s.OneRun) (hg : OneAtATime s e)
    (h : (lifecycle cfg).step s e = some s') : s'.OneRun where
  owned := ho.owned.step hi (hg.keepsOwner ho) h
  latestCall _ _ _ hq hc := ho.latestCall_step hg h hi hq hc
  latestRun _ _ _ hX hf hc := ho.latestRun_step hg h hi hX hf hc
  noCall _ _ _ _ hX hf hgc hq := ho.noCall_step hg h hi hX hf hgc hq
  noRun _ _ _ _ _ hX hf hgc hY hfq hc := ho.noRun_step hg h hi hX hf hgc hY hfq hc
  noDeletion _ _ _ _ hX hf hgc hY hfq hgq hws := ho.noDeletion_step hg h hX hf hgc hY hfq hgq hws
  awaited _ _ _ hX hf hst hin := ho.awaited_step hg h hX hf hst hin
  closing _ _ _ hX hphase := ho.closing_step h hX hphase
  named _ _ _ hrow hname := ho.named_step hi h hrow hname
  swept _ _ _ _ hn href := ho.swept_step hg h hn href

theorem oneRun_of_reach {G : Sys → SysEvent → Prop} (hG : ∀ s e, G s e → OneAtATime s e) (h : (lifecycle cfg).Reach G s) :
    s.OneRun := by
  refine h.invariant (fun s hs => ?_) fun t e u ht ho hg he => ho.step (callsInOrder_of_reach ht) (hG t e hg) he
  have hnone : ∀ n, s.procs n = none := fun n => by simp [Table.procs, hs.2]
  have hown := Sys.start_owned hs
  obtain ⟨⟨now, hw⟩, -⟩ := hs
  refine ⟨hown, ?_, ?_, ?_, ?_, ?_, ?_, ?_, ?_, ?_⟩
  · rintro n p id hp; cases (hnone n).symm.trans hp
  · rintro X r c hX; cases (hnone X).symm.trans hX
  · rintro X r n p hX; cases (hnone X).symm.trans hX
  · rintro X r Y q c hX; cases (hnone X).symm.trans hX
  · rintro X r Y q hX; cases (hnone X).symm.trans hX
  · rintro X r m hX; cases (hnone X).symm.trans hX
  · rintro X r outcome hX; cases (hnone X).symm.trans hX
  · rintro id row X hrow; rw [hw] at hrow; cases hrow
  · rintro n row pc X hn; cases (hnone n).symm.trans hn

/-- At most one lifecycle run of a workspace is in flight, children awaited by their own parent aside. -/
theorem one_lifecycle_run (h : (lifecycle cfg).Reach OneAtATime s) {X Y : RunId} (hX : s.TopLevel id X)
    (hY : s.TopLevel id Y) : X = Y :=
  (oneRun_of_reach (fun _ _ hg => hg) h).unique (callsInOrder_of_reach h) hX hY

/-- A restart and the stop it waits for are both in flight, and no other run is, but for awaited ones. -/
theorem one_lifecycle_run_restart : ∃ s : Sys, s.inFlight 3 = true ∧ s.inFlight 4 = true ∧
    ∀ X Y, s.TopLevel 0 X → s.TopLevel 0 Y → X = Y := by
  obtain ⟨s, hr, h3, h4⟩ := exists_reach_of_execs (G := OneAtATime)
    (fun s : Sys => s.inFlight 3 = true ∧ s.inFlight 4 = true)
    (createsWorkspace 0 0 1 7 ++ [.arrive 2 (.start 0 .restartSession)] ++ startsRun 2 3 ++ [.act 3 (.started 4)] ++
      steps 3 1 ++ steps 4 2 ++ [.act 3 (.status .running)]) (lifecycle_init deployment 0) (by decide) (by decide)
  exact ⟨s, h3, h4, fun X Y hX hY => one_lifecycle_run hr hX hY⟩

/-- Two calls pass the check for a run: the lock of the first expires before it admits itself. -/
theorem two_lifecycle_runs : ¬ ∀ (cfg : Config) (s : Sys) (id : WsId) (X Y : RunId),
    (lifecycle cfg).Reach Truthful s → s.TopLevel id X → s.TopLevel id Y → X = Y := by
  intro h
  obtain ⟨s, hr, h3, h5⟩ := exists_reach_of_execs (G := Truthful)
    (fun s : Sys => (s.procs 3).any (fun p => match p with
        | .run r => r.inFlight && decide (r.ws = 0 ∧ r.starter = .call 2)
        | _ => false) = true ∧ (s.procs 5).any (fun p => match p with
        | .run r => r.inFlight && decide (r.ws = 0 ∧ r.starter = .call 4)
        | _ => false) = true)
    (createsWorkspace 0 0 1 7 ++ [.arrive 2 (.start 0 (.stopWorkspace .user false))] ++ steps 2 2 ++
      [.env (.tick 30001), .arrive 4 (.start 0 (.stopWorkspace .user false))] ++ steps 4 3 ++ [.act 4 (.started 5)] ++
      steps 2 1 ++ [.act 2 (.started 3)]) (lifecycle_init deployment 0) (by decide) (by decide)
  have top : ∀ {X c}, (s.procs X).any (fun p => match p with
      | .run r => r.inFlight && decide (r.ws = 0 ∧ r.starter = .call c)
      | _ => false) = true → s.TopLevel 0 X := by
    intro X c hX
    obtain ⟨p, hp, hr⟩ := (Option.any_eq_true _ _).1 hX
    cases p with
    | run r =>
      simp only [Bool.and_eq_true, decide_eq_true_eq] at hr
      obtain ⟨hf, hws, hc⟩ := hr
      refine ⟨Sys.inFlight_iff.2 ⟨r, hp, hf⟩, ⟨r, hp, hws⟩, ?_⟩
      rintro ⟨m, r', q, hr', hst, -⟩
      cases hp.symm.trans hr'
      cases hc.symm.trans hst
    | _ => cases hr
  cases h deployment s 0 3 5 hr (top h3) (top h5)

end Zedspaces.Lifecycle
