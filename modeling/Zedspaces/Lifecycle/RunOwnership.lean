/-
Who may close a run. `stepFinishRun` clears `workflow_run_id`, and sets the error state after a failure,
whatever run the row names: a deletion that gc has started beside a user's run takes the row from that run
(`late_finisher_takes_row`). The sweep releases a run only while the row names it.

A closing step touches nothing but its own run when the run that closes is the one of the latest admitted
call, or succeeds while the row names no run, and the sweep releases nothing active: the latest run owns
the row until it closes.
-/
import Zedspaces.Lifecycle.Admission

namespace Zedspaces.Lifecycle

open Lib Lib.System

variable {cfg : Config} {s s' : Sys} {n : Pid} {a : Answer} {id : WsId} {row row' : Workspace}

/-- The token of the call that started the run. -/
def Starter.token : Starter → List RunRef
  | .call c => [.admitting c]
  | .parent _ => []

/-- The names of the run that the process closes, and its workspace: its id or the token of its call for a
closing run, the released one for the sweep. -/
def Proc.closes (n : Pid) : Proc → Option (WsId × List RunRef)
  | .run ⟨id, _, starter, .finishing _⟩ => some (id, .run n :: starter.token)
  | .reconcile ⟨row, .release _⟩ => some (row.ws, [row.ref])
  | _ => none

/-- The names of the run that process `n` closes with its next step. -/
def Sys.closes (s : Sys) (n : Pid) : Option (WsId × List RunRef) := (s.procs n).bind (Proc.closes n)

/-- The row names another run than before, or is in another state. -/
def Workspace.Touched (row row' : Workspace) : Prop :=
  row'.workflowRunId ≠ row.workflowRunId ∨ row'.state ≠ row.state ∨ row'.stateReason ≠ row.stateReason

/-- A run that closes is the latest one, or it succeeds while the row names none; the sweep releases nothing
active. -/
def ClosesLatest (s : Sys) (e : SysEvent) : Prop := match s.acting e with
  | some (.run ⟨id, input, starter, .finishing .ok⟩) => s.Latest ⟨id, input, starter, .finishing .ok⟩ ∨
    (s.world.rows id).all (fun row => decide (row.workflowRunId = none)) = true
  | some (.run ⟨id, input, starter, .finishing (.failed error state)⟩) =>
    s.Latest ⟨id, input, starter, .finishing (.failed error state)⟩
  | some (.reconcile ⟨row, .release _⟩) => ¬ s.RefActive row.ws row.ref
  | _ => True

instance (s : Sys) (e : SysEvent) : Decidable (ClosesLatest s e) := by
  unfold ClosesLatest
  generalize s.acting e = p
  rcases p with _ | ⟨_, _, _, _ | (_ | _) | _⟩ | _ | _ | ⟨_, _ | _⟩ | _ <;> infer_instance

theorem ClosesLatest.keepsOwner {e : SysEvent} (h : ClosesLatest s e) : KeepsOwner s e := by
  unfold ClosesLatest at h
  unfold KeepsOwner
  split
  case h_1 id input starter outcome hacting =>
    rw [hacting] at h
    cases outcome with
    | ok =>
      refine h.imp_right fun hnone hactive => ?_
      obtain ⟨row, ref, hrow, href, -⟩ := Sys.rowActive_iff.1 hactive
      rw [hrow] at hnone
      simp only [Option.all_some, decide_eq_true_eq] at hnone
      cases hnone.symm.trans href
    | failed error state => exact .inl h
  case h_2 row error hacting => simpa only [hacting] using h
  case h_3 => trivial

/-- A step that finishes, fails or releases a run touches the row only while the row names that run. -/
theorem closing_step_owns_row (h : (lifecycle cfg).Reach ClosesLatest s) (hg : ClosesLatest s (.act n a))
    (hstep : (lifecycle cfg).step s (.act n a) = some s') {names : List RunRef} (hc : s.closes n = some (id, names))
    (hrow : s.world.rows id = some row) (hrow' : s'.world.rows id = some row') (ht : row.Touched row') :
    ∃ ref ∈ names, row.workflowRunId = some ref := by
  have hown := owned_of_reach (fun _ _ hg => hg.keepsOwner) h
  obtain ⟨p, hp, hc⟩ := Option.bind_eq_some_iff.1 hc
  obtain ⟨stmt, p', st, hn, hw⟩ := lifecycle_act hp hstep
  rw [hw, (Sys.Performs.act hp hn).rows_kept hrow, Option.some.injEq] at hrow'
  subst hrow'
  unfold Proc.closes at hc
  split at hc
  · rename_i id₀ input starter outcome
    cases hc
    have hlatest : s.Latest ⟨id, input, starter, .finishing outcome⟩ →
        ∃ ref ∈ .run n :: starter.token, row.workflowRunId = some ref := by
      intro hl
      obtain ⟨c, hlast, hcall⟩ := Sys.latest_iff.1 hl
      cases hcall
      rcases hown.running n _ c row hp rfl rfl hlast hrow with hname | hname
      · exact ⟨_, List.mem_cons_of_mem _ (List.mem_singleton.2 rfl), hname⟩
      · exact ⟨_, List.mem_cons_self, hname⟩
    simp only [ClosesLatest, Sys.acting, hp] at hg
    cases outcome with
    | failed error state => exact hlatest hg
    | ok =>
      rcases hg with hl | hnone
      · exact hlatest hl
      · rw [hrow] at hnone
        simp only [Option.all_some, decide_eq_true_eq] at hnone
        exfalso
        obtain ⟨r', st', hr, rfl, -⟩ := Proc.next_run hn
        cases hr with
        | body at_ hb => cases at_
        | finished at_ ok =>
          cases at_
          simp [Workspace.Touched, Stmt.onRow, Workspace.finishRun, hnone] at ht
        | retried at_ => simp [Workspace.Touched, Stmt.onRow] at ht
  · rename_i stuck error
    cases hc
    by_contra hne
    have hother : row.workflowRunId ≠ some stuck.ref := fun he => hne ⟨_, List.mem_singleton.2 rfl, he⟩
    obtain ⟨pc, hr, -, -⟩ := Proc.next_reconcile hn
    rcases ReconcilePc.next_cases hr with rfl | ⟨error', -, rfl⟩
    · simp [Workspace.Touched, Stmt.onRow] at ht
    · simp [Workspace.Touched, Stmt.onRow, Workspace.releaseRun, hother] at ht
  · cases hc

/-- A stop that closes clears the row that names it. -/
theorem closing_step_owns_row_stop : ∃ (s : Sys) (row : Workspace), s.world.rows 0 = some row ∧
    s.closes 3 = some (0, [.run 3, .admitting 2]) ∧ ∃ ref ∈ [RunRef.run 3, .admitting 2], row.workflowRunId = some ref := by
  obtain ⟨s, hr, hc, hg, hs⟩ := exists_reach_of_execs (G := ClosesLatest)
    (fun s : Sys => s.closes 3 = some (0, [.run 3, .admitting 2]) ∧ ClosesLatest s (.act 3 .ok) ∧
      ((lifecycle deployment).step s (.act 3 .ok)).any (fun s' => (s.world.rows 0).any fun row =>
        (s'.world.rows 0).any fun row' => decide (row'.workflowRunId ≠ row.workflowRunId)) = true)
    (createsWorkspace 0 0 1 7 ++ (stops 0 2 3).dropLast) (lifecycle_init deployment 0) (by decide) (by decide)
  obtain ⟨s', hs', hrows⟩ := (Option.any_eq_true _ _).1 hs
  obtain ⟨row, hrow, hrows⟩ := (Option.any_eq_true _ _).1 hrows
  obtain ⟨row', hrow', hne⟩ := (Option.any_eq_true _ _).1 hrows
  exact ⟨s, row, hrow, hc, closing_step_owns_row hr hg hs' hc hrow hrow' (.inl (of_decide_eq_true hne))⟩

/-- gc starts the deletion of an expired workspace, a user restarts the workspace meanwhile, and the
deletion closes on the row that names the restart. -/
theorem late_finisher_takes_row : ¬ ∀ (cfg : Config) (s s' : Sys) (n : Pid) (a : Answer) (id : WsId)
    (names : List RunRef) (row row' : Workspace), (lifecycle cfg).Reach System.free s →
    (lifecycle cfg).step s (.act n a) = some s' → s.closes n = some (id, names) → s.world.rows id = some row →
    s'.world.rows id = some row' → row.Touched row' → ∃ ref ∈ names, row.workflowRunId = some ref := by
  intro h
  obtain ⟨s, hr, hc, hs⟩ := exists_reach_of_exec
    (fun s : Sys => s.closes 6 = some (0, [.run 6]) ∧
      ((lifecycle deployment).step s (.act 6 .ok)).any (fun s' => (s.world.rows 0).any fun row =>
        (s'.world.rows 0).any fun row' =>
          decide (row.workflowRunId = some (.run 8) ∧ row'.workflowRunId = none)) = true)
    (createsWorkspace 0 0 1 7 ++ stops 0 2 3 ++ [.env (.tick 2160000000), .arrive 4 .gc] ++ steps 4 4 ++
      [.env (.tick 691200000), .arrive 5 .gc] ++ steps 5 4 ++ [.act 5 (.started 6)] ++
      [.arrive 7 (.start 0 .restartSession)] ++ startsRun 7 8 ++ steps 6 2 ++ [.act 6 (.deletion .deleted)] ++ steps 6 2)
    (lifecycle_init deployment 0) (by decide)
  obtain ⟨s', hs', hrows⟩ := (Option.any_eq_true _ _).1 hs
  obtain ⟨row, hrow, hrows⟩ := (Option.any_eq_true _ _).1 hrows
  obtain ⟨row', hrow', hne⟩ := (Option.any_eq_true _ _).1 hrows
  obtain ⟨hold, hnew⟩ := of_decide_eq_true hne
  obtain ⟨ref, hmem, href⟩ := h deployment s s' 6 .ok 0 _ row row' hr hs' hc hrow hrow' (.inl (by rw [hold, hnew]; simp))
  cases hold.symm.trans href
  simp at hmem

end Zedspaces.Lifecycle
