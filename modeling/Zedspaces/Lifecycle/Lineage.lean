/-
What a run may have come from, by its workflow. A child that takes a slot of the capacity, or stops the workspace for a
rebuild, has a parent that takes one; gc starts deletions only; what a call starts is what a route or the sweep asks for.
No other workflow puts a row into a state that takes a slot, and a run closes in no such state.
-/
import Zedspaces.Lifecycle.OneRun

namespace Zedspaces.Lifecycle

open Lib

variable {cfg : Config} {w : World} {stmt : Stmt} {id : WsId} {s s' : Sys} {e : SysEvent}

/-! ## States that take a slot -/

/-- A workspace in this state has a VM, or is about to. -/
def WorkspaceState.occupied : WorkspaceState → Bool
  | .creating | .running | .rebuilding => true
  | .stopping | .stopped | .deleting | .error => false

/-- A stop that leaves the workspace to a rebuild. -/
def Input.forRebuild : Input → Bool
  | .stopWorkspace .rebuild _ => true
  | _ => false

/-- The statement puts the row of `id` into a state that takes a slot. -/
def Stmt.occupies (id : WsId) : Stmt → Prop
  | .setState j state _ _ | .recordSandboxSession j state _ _ _ _ | .markStopped j _ state _ =>
    j = id ∧ state.occupied = true
  | .finishRun j (.failed _ (some state)) => j = id ∧ state.occupied = true
  | _ => False

/-- A row comes into such a state by such a statement only. -/
theorem Stmt.onRow_occupied {row : Workspace} (h : (stmt.onRow cfg w id row).state.occupied = true) :
    row.state.occupied = true ∨ stmt.occupies id := by
  cases stmt with
  | setState j state reason patch | markStopped j reason state size
  | recordSandboxSession j state reason hosts kind cmd =>
    simp only [onRow] at h
    split at h
    · next hj => exact .inr ⟨hj, h⟩
    · exact .inl h
  | finishRun j outcome =>
    simp only [onRow] at h
    split at h
    · next hj =>
      cases outcome with
      | ok => exact .inl h
      | failed error state =>
        cases state with
        | none => cases h
        | some state => exact .inr ⟨hj, h⟩
    · exact .inl h
  | markLost j reason =>
    simp only [onRow, Workspace.markLost] at h
    repeat' split at h
    · cases h
    · exact .inl h
    · exact .inl h
  | purgeRows j =>
    simp only [onRow] at h
    split at h
    · cases h
    · exact .inl h
  | releaseRun j ref error =>
    simp only [onRow, Workspace.releaseRun] at h
    repeat' split at h
    · cases h
    all_goals exact .inl h
  | _ =>
    left
    simp only [onRow, Workspace.noteBootPhase, Workspace.replaceRunId] at h
    repeat' split at h
    all_goals exact h

section
variable {a : Answer} {j : WsId}

theorem StopPc.next_occupies {reason : StopReason} {pc : StopPc} {d : Did StopPc} (h : pc.next id reason a w = some d)
    (ho : d.stmt.occupies j) : j = id ∧ reason = .rebuild := by
  revert h ho
  fun_cases StopPc.next id reason pc a w <;> rintro ⟨⟩ ho
  all_goals first
    | exact ho.elim
    | cases ho.2
    | skip
  obtain ⟨rfl, ho⟩ := ho
  by_contra hr
  rw [if_neg (fun he => hr ⟨rfl, he⟩)] at ho
  cases ho

theorem DeletePc.next_occupies {pc : DeletePc} {d : Did DeletePc} (h : pc.next id a w = some d) : ¬ d.stmt.occupies j := by
  revert h
  fun_cases DeletePc.next id pc a w
  case case3 =>
    intro h ho
    rw [ChildPc.within_stmt h] at ho
    exact ho
  all_goals rintro ⟨⟩ ho <;> first | exact ho | cases ho.2

/-- Of the workflows only those that take a slot, and a stop for a rebuild, put their row into such a state. -/
theorem Body.next_occupies {input : Input} {b : Body} {d : Did Body} (h : b.next cfg id input a w = some d)
    (ho : d.stmt.occupies j) : j = id ∧ (input.activates = true ∨ input.forRebuild = true) := by
  have hj : j = id := by
    have hof := Body.next_ofBody h
    cases hs : d.stmt <;> rw [hs] at ho hof <;> first | exact ho.elim | exact ho.1.symm.trans hof | skip
    · exact ho.1.symm.trans hof.1
    · exact hof.elim
  refine ⟨hj, ?_⟩
  revert h
  fun_cases Body.next cfg id input b a w <;> intro h
  case case7 => cases h
  case case3 reason child pc =>
    obtain ⟨d', hd, rfl⟩ := Option.map_eq_some_iff.1 h
    obtain ⟨-, rfl⟩ := StopPc.next_occupies hd ho
    exact .inr rfl
  case case6 pc =>
    obtain ⟨d', hd, rfl⟩ := Option.map_eq_some_iff.1 h
    exact absurd ho (DeletePc.next_occupies hd)
  all_goals exact .inl rfl

/-! ## Children -/

/-- A run with this input takes a slot, or stops its workspace for a rebuild. -/
def Input.occupies (input : Input) : Bool := input.activates || input.forRebuild

/-- A workflow that takes a slot and is no child. -/
def Input.roots (input : Input) : Bool := input.activates && !input.child

/-- What a wait for a child may start. -/
theorem ChildPc.next_starts {input : Input} {c : ChildPc} {d : Did ChildPc} {X : RunId} {i : Input}
    (h : c.next input a w = some d) (hs : d.starts = some (X, i)) : i = input := by
  revert h hs
  fun_cases ChildPc.next input c a w <;> rintro ⟨⟩ ⟨⟩
  rfl

theorem ChildPc.within_starts {pc' : Type} {f : ChildPc → pc'} {after : Next pc'} {input : Input} {c : ChildPc}
    {d : Did pc'} {X : RunId} {i : Input} (h : (c.next input a w).map (Did.within f after) = some d)
    (hs : d.starts = some (X, i)) : i = input := by
  obtain ⟨d', hd, rfl⟩ := Option.map_eq_some_iff.1 h
  exact ChildPc.next_starts hd hs

/-- Only a workflow that takes a slot and is no child starts a run that takes one. -/
theorem Body.next_starts {input : Input} {b : Body} {d : Did Body} {X : RunId} {i : Input}
    (h : b.next cfg id input a w = some d) (hs : d.starts = some (X, i)) (hi : i.occupies = true) :
    input.roots = true := by
  revert h
  fun_cases Body.next cfg id input b a w <;> intro h
  case case7 => cases h
  all_goals obtain ⟨d', hd, rfl⟩ := Option.map_eq_some_iff.1 h
  case case1 | case2 | case3 =>
    exfalso
    revert hd
    first
      | fun_cases CreatePc.next <;> rintro ⟨⟩ <;> cases hs
      | fun_cases ConnectPc.next <;> rintro ⟨⟩ <;> cases hs
      | fun_cases StopPc.next <;> rintro ⟨⟩ <;> cases hs
  case case4 | case5 => rfl
  case case6 pc =>
    exfalso
    revert hd
    fun_cases DeletePc.next id pc a w
    case case3 =>
      intro hd
      obtain rfl := ChildPc.within_starts hd hs
      cases hi
    all_goals rintro ⟨⟩ <;> cases hs

end

/-! ## Calls -/

/-- The `startLifecycle` call that the process makes. -/
def Proc.callOf : Proc → Option StartCall
  | .call c => some c
  | .request ⟨_, .starting c⟩ => some c
  | _ => none

theorem Proc.callAt_of_callOf {p : Proc} {c : StartCall} (h : p.callOf = some c) : p.callAt = some (c.ws, c.pc) := by
  unfold callOf at h
  split at h <;> cases h <;> rfl

section
variable {me : Pid} {a : Answer} {p p' : Proc} {st : Option Starts} {c c' : StartCall}

theorem ConnectInput.gate_callOf {r : ConnectInput} {ws : Workspace} {release : EditorRelease}
    (h : r.gate cfg ws release = .starting c) : c.pc = .lock ∧ c.input.forRebuild = false := by
  unfold gate afterGate at h
  repeat' split at h
  all_goals cases h
  exact ⟨rfl, rfl⟩

theorem RequestPc.next_callOf {r : ConnectInput} {pc : RequestPc}
    (h : pc.next cfg me r a w = some (stmt, .starting c', st)) :
    (∃ c, pc = .starting c ∧ c.next cfg me a w = some (stmt, c', st)) ∨ (c'.pc = .lock ∧ c'.input.forRebuild = false) := by
  generalize hq : RequestPc.starting c' = q at h
  revert h
  fun_cases RequestPc.next cfg me r pc a w
  case case12 call =>
    intro h
    obtain ⟨⟨stmt', call', st'⟩, hc, he⟩ := Option.map_eq_some_iff.1 h
    simp only [Prod.mk.injEq] at he
    obtain ⟨rfl, hpc, rfl⟩ := he
    left
    refine ⟨call, rfl, ?_⟩
    unfold afterCall at hpc
    repeat' split at hpc
    all_goals cases hpc.trans hq.symm
    exact hc
  case case7 ws resumed pc =>
    intro h
    obtain ⟨x, -, he⟩ := Option.map_eq_some_iff.1 h
    simp only [Prod.mk.injEq] at he
    obtain ⟨-, hpc, -⟩ := he
    unfold afterDetect connectRunning at hpc
    repeat' split at hpc
    all_goals cases hpc.trans hq.symm
  case case6 ws release =>
    rintro ⟨⟩
    exact .inr (ConnectInput.gate_callOf hq.symm)
  case case11 ws =>
    rintro ⟨⟩
    split at hq
    · cases hq
    · cases hq
      exact .inr ⟨rfl, rfl⟩
  case case1 =>
    rintro ⟨⟩
    cases hrow : w.liveRow r.ws <;> simp [hrow] at hq
  case case13 deadline =>
    rintro ⟨⟩
    unfold afterPoll at hq
    repeat' split at hq
    all_goals cases hq
  all_goals rintro ⟨⟩ <;> first | cases hq | (split at hq <;> cases hq)

/-- A step of a process is a step of the call it makes, or it comes to make one. -/
theorem Proc.next_callOf (h : p.next cfg me a w = some (stmt, p', st)) (hc : p'.callOf = some c') :
    (∃ c, p.callOf = some c ∧ c.next cfg me a w = some (stmt, c', st)) ∨
      (c'.pc = .lock ∧ c'.input.forRebuild = false) := by
  cases p with
  | call c =>
    obtain ⟨⟨stmt', c₁, st'⟩, hn, he⟩ := Option.map_eq_some_iff.1 h
    cases he
    cases hc
    exact .inl ⟨c, rfl, hn⟩
  | request r =>
    obtain ⟨pc, hr, rfl⟩ := Proc.next_request h
    obtain ⟨input, pc₀⟩ := r
    unfold callOf at hc
    split at hc
    · next heq => cases heq
    · next heq =>
      cases heq
      cases hc
      rcases RequestPc.next_callOf hr with ⟨c, rfl, hn⟩ | hnew
      · exact .inl ⟨c, rfl, hn⟩
      · exact .inr hnew
    · cases hc
  | run r => obtain ⟨_, _, -, rfl, -⟩ := Proc.next_run h; cases hc
  | reconcile r => obtain ⟨_, -, rfl, -⟩ := Proc.next_reconcile h; cases hc
  | gc g => obtain ⟨_, -, rfl⟩ := Proc.next_gc h; cases hc

/-- A call keeps its workspace and its input. -/
theorem StartCall.next_same (h : c.next cfg me a w = some (stmt, c', st)) : c'.ws = c.ws ∧ c'.input = c.input := by
  obtain ⟨⟨stmt', pc, st'⟩, -, he⟩ := Option.map_eq_some_iff.1 h
  cases he
  exact ⟨rfl, rfl⟩

/-- A run that a call starts is what the call was asked for. -/
theorem Proc.next_starts_call {x : Starts} (h : p.next cfg me a w = some (stmt, p', some x)) (hs : p.starter me = .call me) :
    ∃ c, p.callOf = some c ∧ c.pc = .start ∧ x.ws = c.ws ∧ x.input = c.input := by
  have of_call : ∀ {c c' : StartCall}, c.next cfg me a w = some (stmt, c', some x) →
      c.pc = .start ∧ x.ws = c.ws ∧ x.input = c.input := by
    intro c c' hc
    obtain ⟨⟨stmt', pc, st'⟩, hpc, he⟩ := Option.map_eq_some_iff.1 hc
    simp only [Prod.mk.injEq] at he
    obtain ⟨-, -, rfl⟩ := he
    obtain ⟨ws, input, pc₀⟩ := c
    revert hpc
    fun_cases CallPc.next cfg me ws input pc₀ a w <;> rintro ⟨⟩
    exact ⟨rfl, rfl, rfl⟩
  cases p with
  | call c =>
    obtain ⟨⟨stmt', c₁, st'⟩, hn, he⟩ := Option.map_eq_some_iff.1 h
    cases he
    exact ⟨c, rfl, of_call hn⟩
  | request r =>
    obtain ⟨pc, hr, rfl⟩ := Proc.next_request h
    obtain ⟨input, pc₀⟩ := r
    revert hr
    fun_cases RequestPc.next cfg me input pc₀ a w
    case case12 call =>
      intro hr
      obtain ⟨⟨stmt', call', st'⟩, hc, he⟩ := Option.map_eq_some_iff.1 hr
      cases he
      exact ⟨call, rfl, of_call hc⟩
    case case7 =>
      intro hr
      obtain ⟨_, -, he⟩ := Option.map_eq_some_iff.1 hr
      cases he
    all_goals rintro ⟨⟩
  | run r => cases hs
  | gc g => cases hs
  | reconcile r => obtain ⟨_, -, -, hst⟩ := Proc.next_reconcile h; cases hst

end

/-! ## The invariant -/

/-- A stop for a rebuild is asked for by rebuilds only, not by a route or the sweep. -/
def SysEvent.Asked : SysEvent → Prop
  | .arrive _ (.start _ input) => input.forRebuild = false
  | _ => True

instance : (e : SysEvent) → Decidable e.Asked
  | .arrive _ (.start _ _) => inferInstanceAs (Decidable (_ = _))
  | .arrive _ (.create _ _ _) | .arrive _ (.connect _ _ _ _) | .arrive _ (.reconcile _) | .arrive _ .gc
  | .act _ _ | .halt _ | .env _ => instDecidableTrue

structure Sys.Lineage (s : Sys) : Prop where
  called : ∀ X r c, s.procs X = some (.run r) → r.starter = .call c → r.input.forRebuild = false
  child : ∀ X r m, s.procs X = some (.run r) → r.starter = .parent m → r.input.occupies = true →
    r.input.child = true ∧ ∃ q, s.procs m = some (.run q) ∧ q.ws = r.ws ∧ q.input.roots = true
  asked : ∀ n p c, s.procs n = some p → p.callOf = some c → c.input.forRebuild = false
  closing : s.ClosesPlainly

/-- Where the call of a process after a step comes from. -/
theorem Sys.callOf_step {k : Pid} {q : Proc} {c' : StartCall} (he : e.Asked) (h : (lifecycle cfg).step s e = some s')
    (hk : s'.procs k = some q) (hc : q.callOf = some c') :
    s.procs k = some q ∨ (∃ a p c stmt st, e = .act k a ∧ s.procs k = some p ∧ p.callOf = some c ∧
      c.next cfg k a s.world = some (stmt, c', st)) ∨ (c'.pc = .lock ∧ c'.input.forRebuild = false) := by
  cases Sys.origin h hk with
  | same hp hne => exact .inl hp
  | @acted n a p p' stmt st he hp hn =>
    rcases Proc.next_callOf hn hc with ⟨c, hpc, hcn⟩ | hnew
    · exact .inr (.inl ⟨a, p, c, stmt, st, he, hp, hpc, hcn⟩)
    · exact .inr (.inr hnew)
  | started => cases hc
  | @arrived n i stmt p heq free ha =>
    subst heq
    cases i with
    | start id input =>
      simp only [Arrival.accept] at ha
      split at ha <;> cases ha
      cases hc
      exact .inr (.inr ⟨rfl, he⟩)
    | create id release idle =>
      simp only [Arrival.accept] at ha
      split at ha <;> cases ha
      cases hc
      exact .inr (.inr ⟨rfl, rfl⟩)
    | connect id reason tab build => cases ha; cases hc
    | reconcile id =>
      obtain ⟨row, -, ha⟩ := Option.bind_eq_some_iff.1 ha
      obtain ⟨ref, -, ha⟩ := Option.map_eq_some_iff.1 ha
      cases ha
      cases hc
    | gc => cases ha; cases hc
  | halted => cases hc

/-- A run that a process has just started. -/
theorem Sys.Lineage.started (hl : s.Lineage) {n : Pid} {a : Answer} {p p' : Proc} {x : Starts} (hp : s.procs n = some p)
    (hn : p.next cfg n a s.world = some (stmt, p', some x)) :
    (∀ c, p.starter n = .call c → x.input.forRebuild = false) ∧
      ∀ m, p.starter n = .parent m → x.input.occupies = true →
        m = n ∧ x.input.child = true ∧ ∃ q, p = .run q ∧ q.ws = x.ws ∧ q.input.roots = true := by
  constructor
  · intro c hc
    have hcn : p.starter n = .call n := by cases p <;> first | rfl | cases hc
    obtain ⟨call, hcall, -, -, hinput⟩ := Proc.next_starts_call hn hcn
    rw [hinput]
    exact hl.asked n p call hp hcall
  · intro m hm hocc
    cases Proc.startsRun_of_next hn with
    | call hc hst => cases hst.symm.trans hm
    | gc hp' hpc hin =>
      rw [hin] at hocc
      cases hocc
    | @parent q hp' hin hws hp'' =>
      subst hp'
      cases hm
      refine ⟨rfl, hin, q, rfl, hws.symm, ?_⟩
      obtain ⟨r', st', hr, -, hst⟩ := Proc.next_run hn
      cases hr with
      | @body b d at_ hb =>
        obtain ⟨⟨X, i⟩, hs, hx⟩ := Option.map_eq_some_iff.1 hst.symm
        cases hx
        exact Body.next_starts hb hs hocc
      | finished | retried => cases hst

theorem Sys.Lineage.step (hl : s.Lineage) (he : e.Asked) (h : (lifecycle cfg).step s e = some s') : s'.Lineage where
  called X r' c hr' hc := by
    rcases (Sys.origin h hr').run with ⟨r, hr, hsame⟩ | ⟨n, a, p, p', stmt, x, rfl, hp, hn, rfl, -, rfl⟩
    · rw [hsame.input]
      exact hl.called X r c hr (hsame.starter.symm.trans hc)
    · exact (hl.started hp hn).1 c hc
  child X r' m hr' hc hocc := by
    rcases (Sys.origin h hr').run with ⟨r, hr, hsame⟩ | ⟨n, a, p, p', stmt, x, rfl, hp, hn, rfl, -, rfl⟩
    · rw [hsame.input] at hocc ⊢
      obtain ⟨hchild, q, hq, hws, hroots⟩ := hl.child X r m hr (hsame.starter.symm.trans hc) hocc
      obtain ⟨q', hq', hqsame⟩ := Sys.run_kept h hq
      exact ⟨hchild, q', hq', by rw [hqsame.ws, hsame.ws, hws], by rw [hqsame.input, hroots]⟩
    · obtain ⟨rfl, hchild, q, rfl, hws, hroots⟩ := (hl.started hp hn).2 m hc hocc
      obtain ⟨q', hq', hqsame⟩ := Sys.run_kept h hp
      exact ⟨hchild, q', hq', hqsame.ws.trans hws, by rw [hqsame.input, hroots]⟩
  asked n q c' hq hc := by
    rcases Sys.callOf_step he h hq hc with hp | ⟨a, p, c, stmt, st, -, hp, hpc, hn⟩ | ⟨-, hnew⟩
    · exact hl.asked n q c' hp hc
    · rw [(StartCall.next_same hn).2]
      exact hl.asked n p c hp hpc
    · exact hnew
  closing := Sys.ClosesPlainly.step hl.closing h

theorem lineage_of_reach {G : Sys → SysEvent → Prop} (hG : ∀ s e, G s e → e.Asked) (h : (lifecycle cfg).Reach G s) :
    s.Lineage := by
  refine h.invariant (fun s hs => ?_) fun t e u _ hl hg he => hl.step (hG t e hg) he
  have hnone : ∀ n, s.procs n = none := fun n => by simp [Table.procs, hs.2]
  refine ⟨?_, ?_, ?_, ?_⟩
  · rintro X r c hX; cases (hnone X).symm.trans hX
  · rintro X r m hX; cases (hnone X).symm.trans hX
  · rintro n p c hp; cases (hnone n).symm.trans hp
  · rintro X r error state hX; cases (hnone X).symm.trans hX

end Zedspaces.Lifecycle
