/-
Admission: how `startLifecycle` comes to own `workflow_run_id`. A call writes its token, starts one run and
replaces the token by the run; closing steps, the sweep and other admissions write the same column.

A call starts at most one run, in every run of the control plane (`callsInOrder_of_reach`). The row names
the latest admitted call or its run for as long as that run is in flight (`Sys.Owned`), provided that nobody
takes the name away: the sweep releases nothing that is active, and no run but that of the latest call
closes while the row names something active.
-/
import Zedspaces.Lifecycle.Steps

namespace Zedspaces.Lifecycle

open Lib

variable {cfg : Config} {w : World} {stmt : Stmt} {id : WsId} {s s' : Sys} {e : SysEvent}

/-! ## Calls -/

/-- The call has not been admitted. -/
def CallPc.early : CallPc → Bool
  | .lock | .read | .status _ _ | .admission _ _ => true
  | _ => false

/-- The call has not started its run, nor will it if it takes its admission back. -/
def CallPc.runless : CallPc → Bool
  | .lock | .read | .status _ _ | .admission _ _ | .start | .takeBack => true
  | _ => false

/-- The call has seen the row and is not over. -/
def CallPc.seen : CallPc → Bool
  | .status _ _ | .admission _ _ | .start | .takeBack | .record _ => true
  | _ => false

/-- The steps of a call. -/
inductive CallPc.Step (me : CallId) (id : WsId) (input : Input) (w : World) : CallPc → Stmt → CallPc → Option Starts → Prop
  | admission {ref : Option RunRef} {state : WorkspaceState} :
      Step me id input w (.admission ref state) (.admitRun id me) .start none
  | start {run : RunId} : Step me id input w .start .nothing (.record run) (some ⟨run, id, input⟩)
  | failed : Step me id input w .start .nothing .takeBack none
  | takeBack : Step me id input w .takeBack (.takeBack id me) (.unlock none) none
  | record {run : RunId} : Step me id input w (.record run) (.recordRun id me run) (.unlock (some run)) none
  | early {pc pc' : CallPc} {stmt : Stmt} (hs : stmt = .nothing ∨ stmt = .lock id me) (h : pc.early = true)
      (h' : pc'.early = true) (hrow : pc'.seen = true → pc.seen = true ∨ (w.rows id).isSome = true) :
      Step me id input w pc stmt pc' none
  | leaving {pc : CallPc} {stmt : Stmt} (hs : stmt = .nothing ∨ stmt = .unlock id me) (result : Option RunId) :
      Step me id input w pc stmt (.unlock result) none
  | done {pc : CallPc} {stmt : Stmt} (hs : stmt = .nothing ∨ stmt = .unlock id me) (result : Option RunId) :
      Step me id input w pc stmt (.done result) none

theorem CallPc.step_of_next {me : CallId} {input : Input} {pc pc' : CallPc} {a : Answer} {st : Option Starts}
    (h : pc.next cfg me id input a w = some (stmt, pc', st)) : CallPc.Step me id input w pc stmt pc' st := by
  revert h
  fun_cases CallPc.next cfg me id input pc a w <;> rintro ⟨⟩
  all_goals first
    | exact .admission
    | exact .start
    | exact .failed
    | exact .takeBack
    | exact .record
    | exact .leaving (.inl rfl) _
    | exact .done (.inl rfl) _
    | exact .done (.inr rfl) _
    | exact .early (.inl rfl) rfl rfl (fun h => .inl rfl)
    | exact .early (.inr rfl) rfl rfl (by rintro ⟨⟩)
    | exact .early (.inl rfl) rfl rfl fun _ => .inr (by simp [*])

/-- The workspace of the `startLifecycle` call that the process makes, and where the call is; a request that
has not made its call yet is before the lock. -/
def RequestPc.callAt (id : WsId) : RequestPc → Option (WsId × CallPc)
  | .load | .status _ | .gate _ | .detect _ false _ | .lostClose _ _ | .lostUpdate _ _ | .lostReload _ | .stopped _ =>
    some (id, .lock)
  | .starting call => some (call.ws, call.pc)
  | _ => none

def Proc.callAt : Proc → Option (WsId × CallPc)
  | .call c => some (c.ws, c.pc)
  | .request r => r.pc.callAt r.input.ws
  | _ => none

/-- The statement is none of a call that was admitted. -/
def Stmt.callFree : Stmt → Prop
  | .admitRun _ _ | .recordRun _ _ _ | .takeBack _ _ => False
  | _ => True

/-- A step of a process is a step of its call, or leaves its call alone. -/
inductive Proc.CallStep (cfg : Config) (me : CallId) (w : World) (p : Proc) (stmt : Stmt) (p' : Proc) :
    Option Starts → Prop
  | call {id : WsId} {input : Input} {pc pc' : CallPc} {st : Option Starts} (hp : p.callAt = some (id, pc))
      (h : CallPc.Step me id input w pc stmt pc' st) (hp' : p'.callAt = some (id, pc') ∨ p'.callAt = none) :
      CallStep cfg me w p stmt p' st
  | other {st : Option Starts} (hp' : p'.callAt = p.callAt ∨ p'.callAt = none) (hs : stmt.callFree)
      (hst : ∀ x, st = some x → p.starter me = .parent me) : CallStep cfg me w p stmt p' st

theorem Stmt.ofRun.callFree {stmt : Stmt} (h : stmt.ofRun id) : stmt.callFree := by
  cases stmt <;> trivial

theorem StartCall.step_of_next {me : CallId} {c c' : StartCall} {a : Answer} {st : Option Starts}
    (h : c.next cfg me a w = some (stmt, c', st)) :
    CallPc.Step me c.ws c.input w c.pc stmt c'.pc st ∧ c'.ws = c.ws := by
  obtain ⟨⟨stmt', pc, st'⟩, hpc, he⟩ := Option.map_eq_some_iff.1 h
  cases he
  exact ⟨CallPc.step_of_next hpc, rfl⟩

theorem RequestPc.afterCall_callAt {now : Int} {call : StartCall} :
    (afterCall now call).callAt id = some (call.ws, call.pc) ∨ (afterCall now call).callAt id = none := by
  unfold afterCall
  split
  · split <;> exact .inr rfl
  · exact .inr rfl
  · exact .inl rfl

theorem ConnectInput.gate_callAt {r : ConnectInput} {ws : Workspace} {release : EditorRelease} :
    (r.gate cfg ws release).callAt r.ws = some (r.ws, .lock) ∨ (r.gate cfg ws release).callAt r.ws = none := by
  unfold gate afterGate
  repeat' split
  all_goals first | exact .inl rfl | exact .inr rfl

theorem RequestPc.afterDetect_callAt {ws : Workspace} {resumed : Bool} {x : DetectPc ⊕ Liveness} :
    (afterDetect ws resumed x).callAt id = (RequestPc.detect ws resumed .peek).callAt id ∨
      (afterDetect ws resumed x).callAt id = none := by
  unfold afterDetect connectRunning
  cases resumed <;> repeat' split
  all_goals first
    | exact .inl rfl
    | exact .inr rfl
    | contradiction

theorem RequestPc.next_callStep {me : Pid} {r : Request} {pc' : RequestPc} {a : Answer} {st : Option Starts}
    (h : r.pc.next cfg me r.input a w = some (stmt, pc', st)) :
    Proc.CallStep cfg me w (.request r) stmt (.request { r with pc := pc' }) st := by
  obtain ⟨input, pc⟩ := r
  revert h
  fun_cases RequestPc.next cfg me input pc a w
  case case12 call =>
    intro h
    obtain ⟨⟨stmt', call', st'⟩, hc, he⟩ := Option.map_eq_some_iff.1 h
    cases he
    obtain ⟨hstep, hws⟩ := StartCall.step_of_next hc
    refine .call rfl hstep ?_
    rw [← hws]
    exact afterCall_callAt
  case case7 ws resumed pc =>
    intro h
    obtain ⟨x, -, he⟩ := Option.map_eq_some_iff.1 h
    cases he
    refine .other ?_ trivial (by rintro x ⟨⟩)
    have : (afterDetect ws resumed x).callAt input.ws = (RequestPc.detect ws resumed .peek).callAt input.ws ∨
        (afterDetect ws resumed x).callAt input.ws = none := afterDetect_callAt
    cases resumed <;> exact this
  case case1 =>
    rintro ⟨⟩
    refine .other ?_ trivial (by rintro x ⟨⟩)
    cases w.liveRow input.ws <;> first | exact .inl rfl | exact .inr rfl
  case case6 ws release =>
    rintro ⟨⟩
    exact .other ConnectInput.gate_callAt trivial (by rintro x ⟨⟩)
  case case13 deadline =>
    rintro ⟨⟩
    refine .other ?_ trivial (by rintro x ⟨⟩)
    unfold afterPoll
    repeat' split
    all_goals exact .inl rfl
  all_goals
    rintro ⟨⟩ <;> refine .other ?_ trivial (by rintro x ⟨⟩) <;> try split
  all_goals first | exact .inl rfl | exact .inr rfl

/-- Every step of a process is a step of its call or leaves its call alone. -/
theorem Proc.callStep_of_next {me : Pid} {p p' : Proc} {a : Answer} {st : Option Starts}
    (h : p.next cfg me a w = some (stmt, p', st)) : p.CallStep cfg me w stmt p' st := by
  cases p with
  | run r =>
    obtain ⟨r', st', hr, rfl, -⟩ := Proc.next_run h
    exact .other (.inl rfl) hr.ofRun.callFree fun _ _ => rfl
  | call c =>
    obtain ⟨pc, hc, rfl⟩ := Proc.next_call h
    exact .call rfl (CallPc.step_of_next hc) (.inl rfl)
  | request r =>
    obtain ⟨pc, hr, rfl⟩ := Proc.next_request h
    exact RequestPc.next_callStep hr
  | reconcile r =>
    obtain ⟨pc, hr, rfl, rfl⟩ := Proc.next_reconcile h
    refine .other (.inl rfl) ?_ (by rintro x ⟨⟩)
    rcases ReconcilePc.next_cases hr with rfl | ⟨error, -, rfl⟩ <;> trivial
  | gc g =>
    obtain ⟨pc, hg, rfl⟩ := Proc.next_gc h
    obtain ⟨now, pc₀⟩ := g
    refine .other (.inl rfl) ?_ fun _ _ => rfl
    cases GcPc.performs_of_next hg <;> trivial

/-! ## One run for each call -/

/-- The run `X` was started by the call `c`. -/
def Sys.StartedBy (s : Sys) (c : CallId) (X : RunId) : Prop := ∃ r, s.procs X = some (.run r) ∧ r.starter = .call c

/-- A call starts at most one run, and has a row to start it for. -/
structure Sys.CallsInOrder (s : Sys) : Prop where
  caller : ∀ c X, s.StartedBy c X → ∃ p, s.procs c = some p
  unique : ∀ c X Y, s.StartedBy c X → s.StartedBy c Y → X = Y
  runless : ∀ n p id pc X, s.procs n = some p → p.callAt = some (id, pc) → pc.runless = true → ¬ s.StartedBy n X
  recording : ∀ n p id X, s.procs n = some p → p.callAt = some (id, .record X) → s.StartedBy n X
  seen : ∀ n p id pc, s.procs n = some p → p.callAt = some (id, pc) → pc.seen = true → ∃ row, s.world.rows id = some row
  home : ∀ X r c, s.procs X = some (.run r) → r.starter = .call c → ∃ row, s.world.rows r.ws = some row

/-- Where the call of a process after a step comes from. -/
inductive Sys.CallOrigin (cfg : Config) (s : Sys) (e : SysEvent) (k : Pid) (q : Proc) (id : WsId) (pc : CallPc) : Prop
  | same {p : Proc} (hp : s.procs k = some p) (h : p.callAt = some (id, pc))
      (hs : ∀ stmt, s.Performs cfg e stmt → SysEvent.pid e = some k → stmt.callFree)
  | stepped {a : Answer} {p : Proc} {input : Input} {pc₀ : CallPc} {stmt : Stmt} {st : Option Starts}
      (he : e = .act k a) (hp : s.procs k = some p) (h : p.callAt = some (id, pc₀))
      (hn : p.next cfg k a s.world = some (stmt, q, st)) (hstep : CallPc.Step k id input s.world pc₀ stmt pc st)
  | arrived (free : s.procs k = none) (h : pc = .lock)

theorem Sys.callOrigin {k : Pid} {q : Proc} {pc : CallPc} (h : (lifecycle cfg).step s e = some s')
    (hk : s'.procs k = some q) (hq : q.callAt = some (id, pc)) : s.CallOrigin cfg e k q id pc := by
  cases Sys.origin h hk with
  | same hp hne => exact .same hp hq fun _ _ he => absurd he hne
  | @acted n a p p' stmt st he hp hn =>
    subst he
    cases Proc.callStep_of_next hn with
    | call hcall hstep hp' =>
      rcases hp' with hp' | hp'
      · cases hq.symm.trans hp'
        exact .stepped rfl hp hcall hn hstep
      · cases hq.symm.trans hp'
    | other hp' hs hst =>
      rcases hp' with hp' | hp'
      · refine .same hp (hp'.symm.trans hq) fun stmt₁ hperf _ => ?_
        cases hperf with
        | act hp₁ hn₁ =>
          cases hp.symm.trans hp₁
          cases hn.symm.trans hn₁
          exact hs
      · cases hq.symm.trans hp'
  | @started n a p p' stmt st he hp hn free => cases hq
  | @arrived n i stmt p he free ha =>
    refine .arrived free ?_
    rcases Arrival.accept_cases ha with
      ⟨_, _, _, -, -, -, rfl⟩ | ⟨-, ⟨_, _, -, rfl⟩ | ⟨_, rfl⟩ | ⟨_, rfl⟩ | rfl⟩ <;> cases hq <;> rfl
  | @halted n r he hp hf => cases hq

theorem Sys.StartedBy.kept {c : CallId} {X : RunId} (h : (lifecycle cfg).step s e = some s') (hX : s.StartedBy c X) :
    s'.StartedBy c X := by
  obtain ⟨r, hr, hc⟩ := hX
  obtain ⟨r', hr', hsame⟩ := Sys.run_kept h hr
  exact ⟨r', hr', hsame.starter.trans hc⟩

/-- A run started by a call was there before, or the call has just started it. -/
theorem Sys.startedBy_step {c : CallId} {X : RunId} (h : (lifecycle cfg).step s e = some s') (hX : s'.StartedBy c X) :
    s.StartedBy c X ∨ ∃ a p q id input, e = .act c a ∧ s.procs c = some p ∧ p.callAt = some (id, .start) ∧
      p.next cfg c a s.world = some (.nothing, q, some ⟨X, id, input⟩) ∧
      (q.callAt = some (id, .record X) ∨ q.callAt = none) := by
  obtain ⟨r', hr', hc⟩ := hX
  rcases (Sys.origin h hr').run with ⟨r, hr, hsame⟩ | ⟨n, a, p, p', stmt, st, rfl, hp, hn, rfl, -, rfl⟩
  · exact .inl ⟨r, hr, hsame.starter.symm.trans hc⟩
  · right
    cases Proc.callStep_of_next hn with
    | call hcall hstep hp' =>
      cases hstep with
      | start =>
        have hcn : c = n := by
          cases p <;> cases hc <;> rfl
        subst hcn
        exact ⟨a, p, p', _, _, rfl, hp, hcall, hn, hp'⟩
    | other hp' hs hst =>
      have hpar : p.starter n = .call c := hc
      rw [hst _ rfl] at hpar
      cases hpar

/-- The row a call or a run works for is there after a step. -/
theorem Sys.rows_isSome {row : Workspace} (h : (lifecycle cfg).step s e = some s') (hrow : s.world.rows id = some row) :
    ∃ row', s'.world.rows id = some row' := by
  obtain ⟨stmt, hperf, hw⟩ := Sys.world_step h
  rw [hw]
  exact ⟨_, hperf.rows_kept hrow⟩

theorem Sys.CallsInOrder.step (hi : s.CallsInOrder) (h : (lifecycle cfg).step s e = some s') : s'.CallsInOrder where
  caller c X hX := by
    rcases Sys.startedBy_step h hX with hX | ⟨a, p, q, id, input, rfl, hp, -⟩
    · obtain ⟨p, hp⟩ := hi.caller c X hX
      exact Sys.procs_isSome h hp
    · exact Sys.procs_isSome h hp
  unique c X Y hX hY := by
    rcases Sys.startedBy_step h hX with hX | ⟨a, p, q, id, input, rfl, hp, hcall, hn, -⟩
    · rcases Sys.startedBy_step h hY with hY | ⟨a, p, q, id, input, rfl, hp, hcall, -⟩
      · exact hi.unique c X Y hX hY
      · exact (hi.runless c p id _ X hp hcall rfl hX).elim
    · rcases Sys.startedBy_step h hY with hY | ⟨a', p', q', id', input', he, hp', -, hn', -⟩
      · exact (hi.runless c p id _ Y hp hcall rfl hY).elim
      · cases he
        cases hp.symm.trans hp'
        cases hn.symm.trans hn'
        rfl
  runless n q id pc X hq hcall hrun hX := by
    rcases Sys.startedBy_step h hX with hX | ⟨a, p, q', id', input, rfl, hp, hcall', hn, hq'⟩
    · cases Sys.callOrigin h hq hcall with
      | same hp hcall' hs => exact hi.runless n _ id pc X hp hcall' hrun hX
      | arrived free hpc =>
        obtain ⟨p, hp⟩ := hi.caller n X hX
        cases free.symm.trans hp
      | stepped he hp hcall' hn hstep =>
        refine hi.runless n _ id _ X hp hcall' ?_ hX
        cases hstep with
        | early hs hearly => revert hearly; unfold CallPc.early CallPc.runless; split <;> simp
        | admission | failed => rfl
        | _ => cases hrun
    · obtain ⟨stmt₁, q₁, st₁, hn₁, hq₁, -⟩ := Sys.procs_acted h hp
      cases hn.symm.trans hn₁
      cases hq.symm.trans hq₁
      rcases hq' with hq' | hq' <;> cases hcall.symm.trans hq'
      cases hrun
  recording n q id X hq hcall := by
    cases Sys.callOrigin h hq hcall with
    | same hp hcall' hs => exact (hi.recording n _ id X hp hcall').kept h
    | arrived free hpc => cases hpc
    | stepped he hp hcall' hn hstep =>
      subst he
      cases hstep with
      | early hs h₁ h₂ => cases h₂
      | start =>
        obtain ⟨stmt₁, q₁, st₁, hn₁, -, -, hst⟩ := Sys.procs_acted h hp
        cases hn.symm.trans hn₁
        refine ⟨_, hst _ rfl, ?_⟩
        show Proc.starter n _ = .call n
        revert hcall'
        cases ‹Proc› <;> simp [Proc.callAt, Proc.starter]
  seen n q id pc hq hcall hseen := by
    cases Sys.callOrigin h hq hcall with
    | same hp hcall' hs =>
      obtain ⟨row, hrow⟩ := hi.seen n _ id pc hp hcall' hseen
      exact Sys.rows_isSome h hrow
    | arrived free hpc => subst hpc; cases hseen
    | stepped he hp hcall' hn hstep =>
      have hrow : ∃ row, s.world.rows id = some row := by
        cases hstep with
        | early hs h₁ h₂ hrow =>
          rcases hrow hseen with hseen₀ | hrow
          · exact hi.seen n _ id _ hp hcall' hseen₀
          · exact Option.isSome_iff_exists.1 hrow
        | leaving | done => cases hseen
        | takeBack | record => cases hseen
        | _ => exact hi.seen n _ id _ hp hcall' rfl
      obtain ⟨row, hrow⟩ := hrow
      exact Sys.rows_isSome h hrow
  home X r' c hr' hc := by
    rcases (Sys.origin h hr').run with ⟨r, hr, hsame⟩ | ⟨n, a, p, p', stmt, st, rfl, hp, hn, rfl, -, rfl⟩
    · obtain ⟨row, hrow⟩ := hi.home X r c hr (hsame.starter.symm.trans hc)
      rw [hsame.ws]
      exact Sys.rows_isSome h hrow
    · cases Proc.callStep_of_next hn with
      | call hcall hstep hp' =>
        cases hstep with
        | start =>
          obtain ⟨row, hrow⟩ := hi.seen n p _ _ hp hcall rfl
          exact Sys.rows_isSome h hrow
      | other hp' hs hst =>
        have hpar : p.starter n = .call c := hc
        rw [hst _ rfl] at hpar
        cases hpar

/-- A call starts at most one run, whatever happens. -/
theorem callsInOrder_of_reach {G : Sys → SysEvent → Prop} (h : (lifecycle cfg).Reach G s) : s.CallsInOrder := by
  refine h.invariant (fun s hs => ?_) fun t e u _ hi _ he => hi.step he
  obtain ⟨-, hs⟩ := hs
  have hnone : ∀ n, s.procs n = none := fun n => by simp [Table.procs, hs]
  refine ⟨?_, ?_, ?_, ?_, ?_, ?_⟩
  · rintro c X ⟨r, hr, -⟩
    cases (hnone X).symm.trans hr
  · rintro c X Y ⟨r, hr, -⟩
    cases (hnone X).symm.trans hr
  · rintro n p id pc X hp
    cases (hnone n).symm.trans hp
  · rintro n p id X hp
    cases (hnone n).symm.trans hp
  · rintro n p id pc hp
    cases (hnone n).symm.trans hp
  · rintro X r c hr
    cases (hnone X).symm.trans hr

/-! ## The column `workflow_run_id` -/

/-- The statement writes `workflow_run_id` of the row of `id`, which holds `old`. -/
inductive Stmt.SetsRun (id : WsId) (old : Option RunRef) : Stmt → Option RunRef → Prop
  | finish {outcome : RunOutcome} : SetsRun id old (.finishRun id outcome) none
  | admission {c : CallId} : SetsRun id old (.admitRun id c) (some (.admitting c))
  | record {c : CallId} {X : RunId} (h : old = some (.admitting c)) : SetsRun id old (.recordRun id c X) (some (.run X))
  | takeBack {c : CallId} (h : old = some (.admitting c)) : SetsRun id old (.takeBack id c) none
  | release {ref : RunRef} {error : Option String} (h : old = some ref) : SetsRun id old (.releaseRun id ref error) none

theorem Stmt.onRow_workflowRunId (cfg : Config) (w : World) (id : WsId) (stmt : Stmt) (row : Workspace) :
    (stmt.onRow cfg w id row).workflowRunId = row.workflowRunId ∨
      stmt.SetsRun id row.workflowRunId (stmt.onRow cfg w id row).workflowRunId := by
  cases stmt with
  | finishRun j outcome =>
    by_cases hj : j = id
    · subst hj
      right
      simp only [onRow, ↓reduceIte]
      cases outcome <;> exact .finish
    · exact .inl (by simp only [onRow, if_neg hj])
  | admitRun j c =>
    by_cases hj : j = id
    · subst hj
      right
      simp only [onRow, ↓reduceIte]
      exact .admission
    · exact .inl (by simp only [onRow, if_neg hj])
  | recordRun j c X =>
    by_cases hj : j = id
    · subst hj
      by_cases hold : row.workflowRunId = some (.admitting c)
      · right
        simp only [onRow, ↓reduceIte, Workspace.replaceRunId, if_pos hold]
        exact .record hold
      · exact .inl (by simp only [onRow, ↓reduceIte, Workspace.replaceRunId, if_neg hold])
    · exact .inl (by simp only [onRow, if_neg hj])
  | takeBack j c =>
    by_cases hj : j = id
    · subst hj
      by_cases hold : row.workflowRunId = some (.admitting c)
      · right
        simp only [onRow, ↓reduceIte, Workspace.replaceRunId, if_pos hold]
        exact .takeBack hold
      · exact .inl (by simp only [onRow, ↓reduceIte, Workspace.replaceRunId, if_neg hold])
    · exact .inl (by simp only [onRow, if_neg hj])
  | releaseRun j ref error =>
    by_cases hj : j = id
    · subst hj
      by_cases hold : row.workflowRunId = some ref
      · right
        simp only [onRow, ↓reduceIte, Workspace.releaseRun, if_pos hold]
        cases error <;> exact .release hold
      · exact .inl (by simp only [onRow, ↓reduceIte, Workspace.releaseRun, if_neg hold])
    · exact .inl (by simp only [onRow, if_neg hj])
  | _ =>
    left
    simp only [onRow, Workspace.noteBootPhase, Workspace.markLost]
    repeat' split
    all_goals rfl

theorem Stmt.exec_lastAdmitted (cfg : Config) (w : World) (h : ∀ c, stmt ≠ .admitRun id c) :
    (stmt.exec cfg w).hist.lastAdmitted id = w.hist.lastAdmitted id := by
  cases stmt with
  | admitRun j c =>
    have hj : id ≠ j := by rintro rfl; exact h c rfl
    simp [exec, Lifecycle.admitRun, hj]
  | deleteSandbox name how => cases how <;> rfl
  | _ => rfl

/-- A statement of an admitted call is performed by that call. -/
theorem Sys.Performs.callStep (h : s.Performs cfg e stmt) (hs : ¬ stmt.callFree) :
    ∃ n a p id input pc pc' st, e = .act n a ∧ s.procs n = some p ∧ p.callAt = some (id, pc) ∧
      CallPc.Step n id input s.world pc stmt pc' st := by
  cases h with
  | arrive free ha => rcases Arrival.accept_cases ha with ⟨_, _, _, -, -, rfl, -⟩ | ⟨rfl, -⟩ <;> exact absurd trivial hs
  | halt => exact absurd trivial hs
  | @env e => cases e <;> exact absurd trivial hs
  | act hp hn =>
    cases Proc.callStep_of_next hn with
    | call hc hstep hp' => exact ⟨_, _, _, _, _, _, _, _, rfl, hp, hc, hstep⟩
    | other hp' hfree hst => exact absurd hfree hs

theorem Sys.Performs.admitRun_of {c : CallId} (h : s.Performs cfg e (.admitRun id c)) :
    ∃ a p ref state, e = .act c a ∧ s.procs c = some p ∧ p.callAt = some (id, .admission ref state) := by
  obtain ⟨n, a, p, j, input, pc, pc', st, rfl, hp, hc, hstep⟩ := h.callStep (fun hs => hs)
  cases hstep with
  | admission => exact ⟨a, p, _, _, rfl, hp, hc⟩
  | early hs | leaving hs | done hs => rcases hs with hs | hs <;> cases hs

theorem Sys.Performs.recordRun_of {c : CallId} {X : RunId} (h : s.Performs cfg e (.recordRun id c X)) :
    ∃ a p, e = .act c a ∧ s.procs c = some p ∧ p.callAt = some (id, .record X) := by
  obtain ⟨n, a, p, j, input, pc, pc', st, rfl, hp, hc, hstep⟩ := h.callStep (fun hs => hs)
  cases hstep with
  | record => exact ⟨a, p, rfl, hp, hc⟩
  | early hs | leaving hs | done hs => rcases hs with hs | hs <;> cases hs

theorem Sys.Performs.takeBack_of {c : CallId} (h : s.Performs cfg e (.takeBack id c)) :
    ∃ a p, e = .act c a ∧ s.procs c = some p ∧ p.callAt = some (id, .takeBack) := by
  obtain ⟨n, a, p, j, input, pc, pc', st, rfl, hp, hc, hstep⟩ := h.callStep (fun hs => hs)
  cases hstep with
  | takeBack => exact ⟨a, p, rfl, hp, hc⟩
  | early hs | leaving hs | done hs => rcases hs with hs | hs <;> cases hs

/-! ## Ownership -/

/-- The process is what `ref` names for the workspace `id`: a run in flight, by its id or by the token of its
call, or a call about to start its run. -/
def Proc.active (n : Pid) (p : Proc) (id : WsId) : RunRef → Bool
  | .run m => match p with
    | .run r => r.inFlight && decide (r.ws = id ∧ m = n)
    | _ => false
  | .admitting c => match p with
    | .run r => r.inFlight && decide (r.ws = id ∧ r.starter = .call c)
    | p => decide (n = c) && match p.callAt with
      | some (j, .start) => decide (j = id)
      | _ => false

/-- `ref` names a run of `id` in flight or an admission whose run is still to start. -/
def Sys.RefActive (s : Sys) (id : WsId) (ref : RunRef) : Prop := ∃ n p, s.procs n = some p ∧ p.active n id ref = true

instance (s : Sys) (id : WsId) (ref : RunRef) : Decidable (s.RefActive id ref) :=
  inferInstanceAs (Decidable (∃ n p, s.procs n = some p ∧ p.active n id ref = true))

/-- An active token is that of a run in flight or of a call about to start its run. -/
theorem Proc.active_admitting {n : Pid} {p : Proc} {c : CallId} (h : p.active n id (.admitting c) = true) :
    (∃ r, p = .run r ∧ r.inFlight = true ∧ r.ws = id ∧ r.starter = .call c) ∨ (n = c ∧ p.callAt = some (id, .start)) := by
  cases p with
  | run r =>
    simp only [active, Bool.and_eq_true, decide_eq_true_eq] at h
    exact .inl ⟨r, rfl, h⟩
  | _ =>
    simp only [active, Bool.and_eq_true, decide_eq_true_eq] at h
    obtain ⟨hn, hc⟩ := h
    right
    refine ⟨hn, ?_⟩
    split at hc
    · rename_i j hj
      rw [hj, of_decide_eq_true hc]
    · cases hc

/-- The row of `id` names something active. -/
def Sys.RowActive (s : Sys) (id : WsId) : Prop :=
  (s.world.rows id).any (fun row => row.workflowRunId.any fun ref => decide (s.RefActive id ref)) = true

instance (s : Sys) (id : WsId) : Decidable (s.RowActive id) := inferInstanceAs (Decidable (_ = true))

theorem Sys.rowActive_iff : s.RowActive id ↔
    ∃ row ref, s.world.rows id = some row ∧ row.workflowRunId = some ref ∧ s.RefActive id ref := by
  simp only [RowActive, Option.any_eq_true, decide_eq_true_eq]
  constructor
  · rintro ⟨row, hrow, ref, href, h⟩
    exact ⟨row, ref, hrow, href, h⟩
  · rintro ⟨row, ref, hrow, href, h⟩
    exact ⟨row, hrow, ref, href, h⟩

theorem Sys.refActive_run {X : RunId} {r : Run} (hX : s.procs X = some (.run r)) (hf : r.inFlight = true) :
    s.RefActive r.ws (.run X) := ⟨X, _, hX, by simp [Proc.active, hf]⟩

theorem Sys.refActive_started {X : RunId} {r : Run} {c : CallId} (hX : s.procs X = some (.run r))
    (hf : r.inFlight = true) (hc : r.starter = .call c) : s.RefActive r.ws (.admitting c) :=
  ⟨X, _, hX, by simp [Proc.active, hf, hc]⟩

theorem Sys.refActive_starting {n : Pid} {p : Proc} (hp : s.procs n = some p) (h : p.callAt = some (id, .start)) :
    s.RefActive id (.admitting n) := by
  refine ⟨n, p, hp, ?_⟩
  cases p with
  | run r => cases h
  | _ => simp [Proc.active, h]

/-- The run was started by the call last admitted for its workspace. -/
def Sys.Latest (s : Sys) (r : Run) : Prop :=
  (s.world.hist.lastAdmitted r.ws).any (fun c => decide (r.starter = .call c)) = true

instance (s : Sys) (r : Run) : Decidable (s.Latest r) := inferInstanceAs (Decidable (_ = true))

theorem Sys.latest_iff {r : Run} : s.Latest r ↔ ∃ c, s.world.hist.lastAdmitted r.ws = some c ∧ r.starter = .call c := by
  simp [Latest, Option.any_eq_true]

/-- Nobody takes its name from an active owner: the sweep releases nothing active, and a run that closes is
the latest one or the row names nothing active. -/
def KeepsOwner (s : Sys) (e : SysEvent) : Prop := match s.acting e with
  | some (.run ⟨id, input, starter, .finishing outcome⟩) =>
    s.Latest ⟨id, input, starter, .finishing outcome⟩ ∨ ¬ s.RowActive id
  | some (.reconcile ⟨row, .release _⟩) => ¬ s.RefActive row.ws row.ref
  | _ => True

/-- The row names the latest admitted call while that call is about to start its run, and the call or its
run while the run is in flight. -/
structure Sys.Owned (s : Sys) : Prop where
  starting : ∀ n p id row, s.procs n = some p → p.callAt = some (id, .start) →
    s.world.hist.lastAdmitted id = some n → s.world.rows id = some row → row.workflowRunId = some (.admitting n)
  running : ∀ X r c row, s.procs X = some (.run r) → r.inFlight = true → r.starter = .call c →
    s.world.hist.lastAdmitted r.ws = some c → s.world.rows r.ws = some row →
    row.workflowRunId = some (.admitting c) ∨ row.workflowRunId = some (.run X)

/-- What becomes of an active name when no call is admitted: it stays, its call records its run, or the
latest run closes. -/
inductive Sys.NameAfter (cfg : Config) (s : Sys) (e : SysEvent) (id : WsId) (ref : RunRef) (stmt : Stmt) (new : Option RunRef) :
    Prop
  | kept (h : new = some ref)
  | recorded {c : CallId} {X : RunId} {a : Answer} {p : Proc} (href : ref = .admitting c) (hnew : new = some (.run X))
      (he : e = .act c a) (hp : s.procs c = some p) (hc : p.callAt = some (id, .record X))
  | closed {Y : RunId} {a : Answer} {r : Run} {p' : Proc} {outcome : RunOutcome} {st : Option Starts} (he : e = .act Y a)
      (hY : s.procs Y = some (.run r)) (hn : (Proc.run r).next cfg Y a s.world = some (.finishRun id outcome, p', st))
      (hws : r.ws = id) (hl : s.Latest r)

theorem Sys.Performs.nameAfter {row : Workspace} {ref : RunRef} (hi : s.CallsInOrder) (hg : KeepsOwner s e)
    (hperf : s.Performs cfg e stmt) (hrow : s.world.rows id = some row) (href : row.workflowRunId = some ref)
    (hact : s.RefActive id ref) (hadm : ∀ c, stmt ≠ .admitRun id c) :
    s.NameAfter cfg e id ref stmt (stmt.onRow cfg s.world id row).workflowRunId := by
  rcases Stmt.onRow_workflowRunId cfg s.world id stmt row with hk | hset
  · exact .kept (hk.trans href)
  generalize (stmt.onRow cfg s.world id row).workflowRunId = new at hset
  cases hset with
  | @admission c => exact absurd rfl (hadm c)
  | @record c X hold =>
    obtain ⟨a, p, rfl, hp, hc⟩ := hperf.recordRun_of
    exact .recorded (Option.some.inj (href.symm.trans hold)) rfl rfl hp hc
  | @takeBack c hold =>
    obtain ⟨a, p, rfl, hp, hc⟩ := hperf.takeBack_of
    cases Option.some.inj (href.symm.trans hold)
    obtain ⟨m, q, hq, hactive⟩ := hact
    rcases Proc.active_admitting hactive with ⟨r, rfl, -, -, hr⟩ | ⟨rfl, hj⟩
    · exact (hi.runless c p id _ m hp hc rfl ⟨r, hq, hr⟩).elim
    · cases hp.symm.trans hq
      cases hc.symm.trans hj
  | @finish outcome =>
    obtain ⟨n, a, p, p', st, rfl, hp, hn⟩ := hperf.act_of (by rintro ⟨⟩) (by rintro _ _ _ ⟨⟩) (fun x => by cases x <;> rintro ⟨⟩)
    obtain ⟨r, rfl, hphase, hws⟩ := (Proc.next_does hn).finishRun_of
    obtain ⟨ws, input, starter, phase⟩ := r
    cases hphase
    cases hws
    simp only [KeepsOwner, Sys.acting, hp] at hg
    rcases hg with hl | hna
    · exact .closed rfl hp hn rfl hl
    · exact absurd (Sys.rowActive_iff.2 ⟨row, ref, hrow, href, hact⟩) hna
  | @release ref' error hold =>
    obtain ⟨n, a, p, p', st, rfl, hp, hn⟩ := hperf.act_of (by rintro ⟨⟩) (by rintro _ _ _ ⟨⟩) (fun x => by cases x <;> rintro ⟨⟩)
    cases Option.some.inj (href.symm.trans hold)
    obtain ⟨row', rfl, hws, hr⟩ := (Proc.next_does hn).releaseRun_of
    simp only [KeepsOwner, Sys.acting, hp] at hg
    exact absurd (hws ▸ hr ▸ hact) hg

/-- A run that closes has ended. -/
theorem Run.finishRun_ended {r r' : Run} {me : Pid} {a : Answer} {outcome : RunOutcome} {st : Option Starts}
    (h : (Proc.run r).next cfg me a w = some (.finishRun id outcome, .run r', st)) (hf : r'.inFlight = true) : False := by
  obtain ⟨r'', st', hr, he, -⟩ := Proc.next_run h
  cases he
  generalize hs : Stmt.finishRun id outcome = stmt at hr
  cases hr with
  | @body b d at_ hb =>
    have hof : (Stmt.finishRun id outcome).ofBody r.ws := hs ▸ Body.next_ofBody hb
    exact hof.elim
  | finished at_ ok => cases hf
  | retried at_ => cases hs

theorem Sys.Owned.step (hi : s.CallsInOrder) (ho : s.Owned) (hg : KeepsOwner s e) (h : (lifecycle cfg).step s e = some s') :
    s'.Owned where
  starting n q id row' hq hcall hlast hrow' := by
    obtain ⟨stmt, hperf, hw⟩ := Sys.world_step h
    rw [hw] at hlast hrow'
    cases Sys.callOrigin h hq hcall with
    | arrived free hpc => cases hpc
    | @stepped a p input pc₀ stmt₁ st he hp hc hn hstep =>
      subst he
      cases hperf with
      | act hp₁ hn₁ =>
        cases hp.symm.trans hp₁
        cases hn.symm.trans hn₁
        cases hstep with
        | admission =>
          obtain ⟨row, hrow⟩ := hi.seen n p id _ hp hc rfl
          cases ((Sys.Performs.act hp hn).rows_kept hrow).symm.trans hrow'
          simp [Stmt.onRow, Workspace.setRunId]
        | early hs h₁ h₂ => cases h₂
    | @same p hp hc hfree =>
      obtain ⟨row, hrow⟩ := hi.seen n p id _ hp hc rfl
      cases (hperf.rows_kept hrow).symm.trans hrow'
      by_cases hadm : ∃ c, stmt = .admitRun id c
      · obtain ⟨c, rfl⟩ := hadm
        obtain ⟨a, p₁, ref, state, rfl, -⟩ := hperf.admitRun_of
        have hcn : c = n := by simpa [Stmt.exec, Lifecycle.admitRun] using hlast
        exact (hfree _ hperf (by rw [hcn]; rfl)).elim
      · have hadm' : ∀ c, stmt ≠ .admitRun id c := fun c hs => hadm ⟨c, hs⟩
        rw [Stmt.exec_lastAdmitted cfg _ hadm'] at hlast
        have hname := ho.starting n p id row hp hc hlast hrow
        cases hperf.nameAfter hi hg hrow hname (Sys.refActive_starting hp hc) hadm' with
        | kept hk => exact hk
        | recorded href hnew he hp' hc' =>
          cases href
          cases hp.symm.trans hp'
          cases hc.symm.trans hc'
        | closed he hY hn hws hlatest =>
          subst hws
          obtain ⟨c, hc₁, hc₂⟩ := Sys.latest_iff.1 hlatest
          cases hlast.symm.trans hc₁
          exact (hi.runless n p _ _ _ hp hc rfl ⟨_, hY, hc₂⟩).elim
  running X r' c row' hX hf hc hlast hrow' := by
    obtain ⟨stmt, hperf, hw⟩ := Sys.world_step h
    rw [hw] at hlast hrow'
    rcases (Sys.origin h hX).run with ⟨r, hr, hsame⟩ | ⟨n, a, p, p', stmt₁, st, rfl, hp, hn, rfl, -, rfl⟩
    · have hcr : r.starter = .call c := hsame.starter.symm.trans hc
      rw [hsame.ws] at hlast hrow'
      obtain ⟨row, hrow⟩ := hi.home X r c hr hcr
      cases (hperf.rows_kept hrow).symm.trans hrow'
      have hfr := hsame.inFlight hf
      have hadm : ∀ c₁, stmt ≠ .admitRun r.ws c₁ := by
        rintro c₁ rfl
        obtain ⟨a, p₁, ref, state, rfl, hp₁, hc₁⟩ := hperf.admitRun_of
        have hcc : c₁ = c := by simpa [Stmt.exec, Lifecycle.admitRun] using hlast
        exact hi.runless c₁ p₁ _ _ X hp₁ hc₁ rfl ⟨r, hr, hcc ▸ hcr⟩
      rw [Stmt.exec_lastAdmitted cfg _ hadm] at hlast
      obtain ⟨ref, hname, hact, href⟩ : ∃ ref, row.workflowRunId = some ref ∧ s.RefActive r.ws ref ∧
          (ref = .admitting c ∨ ref = .run X) := by
        rcases ho.running X r c row hr hfr hcr hlast hrow with hname | hname
        · exact ⟨_, hname, Sys.refActive_started hr hfr hcr, .inl rfl⟩
        · exact ⟨_, hname, Sys.refActive_run hr hfr, .inr rfl⟩
      cases hperf.nameAfter hi hg hrow hname hact hadm with
      | kept hk => rcases href with rfl | rfl <;> simp [hk]
      | @recorded c₁ Y a p href' hnew he hp hc' =>
        subst href'
        rcases href with href | href <;> cases href
        have hXY := hi.unique c X Y ⟨r, hr, hcr⟩ (hi.recording c p _ Y hp hc')
        exact .inr (hXY ▸ hnew)
      | @closed Y a q p' outcome st he hY hn hws hlatest =>
        obtain ⟨c₁, hc₁, hc₂⟩ := Sys.latest_iff.1 hlatest
        rw [hws] at hc₁
        cases hlast.symm.trans hc₁
        cases hi.unique c X Y ⟨r, hr, hcr⟩ ⟨q, hY, hc₂⟩
        cases hr.symm.trans hY
        subst he
        obtain ⟨stmt₂, q', st₂, hn₂, hq', -⟩ := Sys.procs_acted h hr
        cases hn.symm.trans hn₂
        cases hX.symm.trans hq'
        exact (Run.finishRun_ended hn hf).elim
    · cases Proc.callStep_of_next hn with
      | call hcall hstep hp' =>
        cases hstep with
        | start =>
          cases hperf with
          | act hp₁ hn₁ =>
            cases hp.symm.trans hp₁
            cases hn.symm.trans hn₁
            have hcn : n = c := by
              cases p <;> cases hc <;> rfl
            subst hcn
            exact .inl (ho.starting n p _ row' hp hcall hlast hrow')
      | other hp' hs hst =>
        have hpar : p.starter n = .call c := hc
        rw [hst _ rfl] at hpar
        cases hpar

theorem Sys.start_owned (hs : (lifecycle cfg).init s) : s.Owned := by
  obtain ⟨-, hs⟩ := hs
  have hnone : ∀ n, s.procs n = none := fun n => by simp [Table.procs, hs]
  refine ⟨?_, ?_⟩
  · rintro n p id row hp
    cases (hnone n).symm.trans hp
  · rintro X r c row hX
    cases (hnone X).symm.trans hX

/-- In runs where nobody takes its name from an active owner, the latest admitted call or its run owns the
row while that run is in flight. -/
theorem owned_of_reach {G : Sys → SysEvent → Prop} (hG : ∀ s e, G s e → KeepsOwner s e) (h : (lifecycle cfg).Reach G s) :
    s.Owned := by
  refine h.invariant (fun s hs => Sys.start_owned hs) fun t e u ht ho hg he => ?_
  exact ho.step (callsInOrder_of_reach ht) (hG t e hg) he

end Zedspaces.Lifecycle
