/-
The retention of `gc`. A gc run selects the stopped workspaces whose deadline has passed and deletes them one
after the other. The deadline is set by `stepMarkStopped` alone: `markWorkspaceLost` stops a row and leaves
the deadline of the stop before, which may have passed while the workspace was in use
(`gc_deletes_lost_workspace`), and `connectWorkspace` makes its row `stopped` while it resumes the sandbox.
Nothing is asked again between the selection and the deletion.

The retention is kept while no step leaves a stopped row with a deadline that is too early, and a selected
workspace is idle and left alone. Deadlines are a matter of the world alone, and each statement keeps them; the
assertion of a gc run is about the workspaces it has still to begin with.
-/
import Mathlib.Data.List.Nodup
import Zedspaces.Lifecycle.Children

namespace Zedspaces.Lifecycle

open Lib Lib.System

variable {cfg : Config} {w : World} {stmt : Stmt} {id : WsId} {name : SandboxName}

/-! ## Deadlines -/

/-- The deadline of the row, if it has one, is `ZS_RETENTION_DAYS` after `t` or later. -/
def Workspace.Retains (cfg : Config) (row : Workspace) (t : Int) : Prop :=
  ∀ deadline ∈ row.retentionUntil, t + cfg.retentionDays * dayMs ≤ deadline

instance (row : Workspace) (t : Int) : Decidable (row.Retains cfg t) :=
  inferInstanceAs (Decidable (∀ deadline ∈ row.retentionUntil, t + cfg.retentionDays * dayMs ≤ deadline))

/-- The deadline of a stopped row leaves the retention to the last VM session. -/
structure World.Retention (cfg : Config) (w : World) : Prop where
  past : ∀ id t, w.hist.vmEndedAt id = some t → t ≤ w.now
  stopped : ∀ id row t, w.rows id = some row → row.state = .stopped → w.hist.vmEndedAt id = some t → row.Retains cfg t
  listed : w.ids.Nodup

/-- The statement ends the VM session of the sandbox, when there is one. -/
def Stmt.EndsVm (name : SandboxName) : Stmt → Prop
  | .stopSandbox other | .endSession other _ | .deleteSandbox other .deleted | .deleteSandbox other .onlyStopped =>
    other = name
  | _ => False

/-- The statement may start a VM session of the sandbox. -/
def Stmt.startsVm : Stmt → Option SandboxName
  | .getOrCreate name | .resume name | .startArchive name | .finishArchive name => some name
  | _ => none

/-- The statement moves the row to `stopped` and leaves its deadline. -/
def Stmt.Restops (id : WsId) (row : Workspace) : Stmt → Prop
  | .setState j .stopped _ _ | .recordSandboxSession j .stopped _ _ _ _ => j = id
  | .markLost j _ => j = id ∧ row.state = .running
  | _ => False

/-- A step that stops a row without a new deadline, or ends a VM session under a stopped row, finds a deadline
that is late enough. -/
def Stmt.KeepsDeadline (cfg : Config) (w : World) : Stmt → Prop
  | .setState id .stopped _ _ | .recordSandboxSession id .stopped _ _ _ _ =>
    ∀ row ∈ w.rows id, ∀ t ∈ w.hist.vmEndedAt id, row.Retains cfg t
  | .markLost id _ => ∀ row ∈ w.rows id, row.state = .running → ∀ t ∈ w.hist.vmEndedAt id, row.Retains cfg t
  | .stopSandbox name | .endSession name _ | .deleteSandbox name .deleted | .deleteSandbox name .onlyStopped =>
    w.vmLive name = true → ∀ row ∈ w.rows name.workspace, row.state = .stopped → row.Retains cfg w.now
  | _ => True

instance : (stmt : Stmt) → Decidable (stmt.KeepsDeadline cfg w) := fun stmt => by
  unfold Stmt.KeepsDeadline
  split <;> infer_instance

/-! ## The condition on a step -/

/-- The workspaces a gc run has selected and whose deletion it has not begun. -/
def GcPc.ahead : GcPc → List WsId
  | .known ids => ids
  | .delete queue _ child => if child = .start then queue else queue.tail
  | _ => []

def Proc.ahead : Proc → List WsId
  | .gc g => g.pc.ahead
  | _ => []

/-- The process is a run in flight for the workspace. -/
def Proc.runsFor (id : WsId) : Proc → Bool
  | .run r => r.inFlight && decide (r.ws = id)
  | _ => false

/-- No run is in flight for the workspace, and no VM session is going on in a sandbox its row names. -/
def Sys.Idle (s : Sys) (id : WsId) : Prop :=
  (∀ k q, s.procs k = some q → q.runsFor id = false) ∧
    ∀ row ∈ s.world.rows id, ∀ name ∈ row.sandboxName :: row.previousSandboxName.toList, s.world.vmLive name = false

instance (s : Sys) (id : WsId) : Decidable (s.Idle id) :=
  inferInstanceAs (Decidable ((∀ k q, s.procs k = some q → q.runsFor id = false) ∧
    ∀ row ∈ s.world.rows id, ∀ name ∈ row.sandboxName :: row.previousSandboxName.toList, s.world.vmLive name = false))

/-- The step of process `n` leaves the workspaces alone that another gc run has selected: it starts no run for
them, releases none, and starts no VM session of theirs. -/
def Sys.LeavesAlone (s : Sys) (n : Pid) (stmt : Stmt) (st : Option Starts) : Prop :=
  ∀ k q, s.procs k = some q → k ≠ n → ∀ id ∈ q.ahead, (∀ x ∈ st, x.ws ≠ id) ∧
    (match stmt with
      | .releaseRun j _ _ => j ≠ id
      | _ => True) ∧
    ∀ name ∈ stmt.startsVm, ∀ row ∈ s.world.rows id, name ∉ row.sandboxName :: row.previousSandboxName.toList

instance (s : Sys) (n : Pid) (stmt : Stmt) (st : Option Starts) : Decidable (s.LeavesAlone n stmt st) := by
  unfold Sys.LeavesAlone
  cases stmt <;> infer_instance

/-- A gc run selects idle workspaces. -/
def Proc.SelectsIdle (s : Sys) : Proc → Prop
  | .gc ⟨now, .expired⟩ => ∀ id ∈ expiredWorkspaces now s.world, s.Idle id
  | _ => True

instance (s : Sys) : (p : Proc) → Decidable (p.SelectsIdle s) := fun p => by
  unfold Proc.SelectsIdle
  split <;> infer_instance

/-- The step is a gc run's, whose start of a deletion dies before its id is stored. -/
def Proc.losesStart : Proc → Answer → Bool
  | .gc _, .crashed => true
  | _, _ => false

/-- The step keeps the deadlines, and leaves the selected workspaces idle and alone. -/
def KeepsRetention (cfg : Config) (s : Sys) : SysEvent → Prop
  | .act n a => ∀ p ∈ s.procs n, p.SelectsIdle s ∧ p.losesStart a = false ∧
      ∀ x ∈ p.next cfg n a s.world, x.1.KeepsDeadline cfg s.world ∧ s.LeavesAlone n x.1 x.2.2
  | .env e => e.stmt.KeepsDeadline cfg s.world
  | _ => True

instance (s : Sys) : (e : SysEvent) → Decidable (KeepsRetention cfg s e) := fun e => by
  unfold KeepsRetention
  split <;> infer_instance

/-- What is asked of a workspace whose deletion starts: its row is stopped, no lifecycle run is in flight for
it, and its last VM session ended `ZS_RETENTION_DAYS` ago. -/
structure Sys.MayDelete (cfg : Config) (s : Sys) (id : WsId) : Prop where
  stopped : ∃ row, s.world.rows id = some row ∧ row.state = .stopped
  inFlight : ∀ k, ¬ s.InFlight id k
  noVm : ∀ row, s.world.rows id = some row → ∀ name, row.sandboxName = name ∨ row.previousSandboxName = some name →
    s.world.vmLive name = false
  retained : ∀ t, s.world.hist.vmEndedAt id = some t → t + cfg.retentionDays * dayMs ≤ s.world.now

/-! ## What a statement does -/

theorem World.noteVmEnd_vmEndedAt {t : Int} (h : (w.noteVmEnd name).vmEndedAt id = some t) :
    w.hist.vmEndedAt id = some t ∨ (t = w.now ∧ name.workspace = id ∧ w.vmLive name = true) := by
  simp only [World.noteVmEnd] at h
  split at h
  · next hlive =>
    rw [Function.update_apply] at h
    split at h
    · next hid => exact .inr ⟨(Option.some.inj h).symm, hid.symm, hlive⟩
    · exact .inl h
  · exact .inl h

/-- A VM session ended before, or it is this statement that ends one. -/
theorem Stmt.exec_vmEndedAt {t : Int} (h : (stmt.exec cfg w).hist.vmEndedAt id = some t) :
    w.hist.vmEndedAt id = some t ∨
      (t = w.now ∧ ∃ name, stmt.EndsVm name ∧ name.workspace = id ∧ w.vmLive name = true) := by
  cases stmt with
  | deleteSandbox other how =>
    cases how with
    | deleted => exact (World.noteVmEnd_vmEndedAt h).imp_right fun ⟨ht, hid, hlive⟩ => ⟨ht, other, rfl, hid, hlive⟩
    | onlyStopped => exact (World.noteVmEnd_vmEndedAt h).imp_right fun ⟨ht, hid, hlive⟩ => ⟨ht, other, rfl, hid, hlive⟩
    | nothing => exact .inl h
  | stopSandbox other | endSession other status =>
    exact (World.noteVmEnd_vmEndedAt h).imp_right fun ⟨ht, hid, hlive⟩ => ⟨ht, other, rfl, hid, hlive⟩
  | _ => exact .inl h

/-- A stopped row was stopped before with the same deadline, or has just got a new one, or was stopped without. -/
theorem Stmt.onRow_stopped (hr : stmt.Regular) (hf : ∀ j error, stmt ≠ .finishRun j (.failed error (some .stopped)))
    {row : Workspace} (h : (stmt.onRow cfg w id row).state = .stopped) :
    (stmt.onRow cfg w id row).retentionUntil = some (w.now + cfg.retentionDays * dayMs) ∨
      ((stmt.onRow cfg w id row).retentionUntil = row.retentionUntil ∧ (row.state = .stopped ∨ stmt.Restops id row)) := by
  cases stmt with
  | setState j state reason patch =>
    simp only [onRow] at h ⊢
    split at h
    · next hj =>
      rw [if_pos hj]
      obtain rfl : state = .stopped := h
      have hret : (row.setState w.now .stopped reason patch).retentionUntil = row.retentionUntil := by
        rcases hr with rfl | rfl | rfl <;> rfl
      exact .inr ⟨hret, .inr hj⟩
    · next hj =>
      rw [if_neg hj]
      exact .inr ⟨rfl, .inl h⟩
  | recordSandboxSession j state reason hosts kind cmd =>
    simp only [onRow] at h ⊢
    split at h
    · next hj =>
      rw [if_pos hj]
      obtain rfl : state = .stopped := h
      exact .inr ⟨rfl, .inr hj⟩
    · next hj =>
      rw [if_neg hj]
      exact .inr ⟨rfl, .inl h⟩
  | markStopped j reason state size =>
    simp only [onRow] at h ⊢
    split
    · exact .inl rfl
    · next hj =>
      rw [if_neg hj] at h
      exact .inr ⟨rfl, .inl h⟩
  | markLost j reason =>
    simp only [onRow, Workspace.markLost] at h ⊢
    split at h
    · next hj =>
      rw [if_pos hj]
      split at h
      · next hrun =>
        rw [if_pos hrun]
        exact .inr ⟨rfl, .inr ⟨hj, hrun⟩⟩
      · next hrun =>
        rw [if_neg hrun]
        exact .inr ⟨rfl, .inl h⟩
    · next hj =>
      rw [if_neg hj]
      exact .inr ⟨rfl, .inl h⟩
  | finishRun j outcome =>
    simp only [onRow] at h ⊢
    split at h
    · next hj =>
      rw [if_pos hj]
      cases outcome with
      | ok => exact .inr ⟨rfl, .inl h⟩
      | failed error state =>
        cases state with
        | none => cases h
        | some state =>
          obtain rfl : state = .stopped := h
          exact absurd rfl (hf j error)
    · next hj =>
      rw [if_neg hj]
      exact .inr ⟨rfl, .inl h⟩
  | purgeRows j =>
    simp only [onRow] at h ⊢
    split at h
    · cases h
    · next hj =>
      rw [if_neg hj]
      exact .inr ⟨rfl, .inl h⟩
  | _ =>
    simp only [onRow, Workspace.noteBootPhase, Workspace.replaceRunId, Workspace.releaseRun] at h ⊢
    refine .inr ⟨?_, .inl ?_⟩
    · repeat' split
      all_goals trivial
    · repeat' split at h
      all_goals first
        | exact h
        | cases h

/-- The row keeps its state, its deadline and its names. -/
structure Workspace.Rests (row row' : Workspace) : Prop where
  state : row'.state = row.state
  deadline : row'.retentionUntil = row.retentionUntil
  name : row'.sandboxName = row.sandboxName
  previous : row'.previousSandboxName = row.previousSandboxName

/-- The statement may move the stopped row of `id`. -/
def Stmt.Moves (id : WsId) : Stmt → Prop
  | .setState j _ _ _ | .finishRun j _ | .recordSandboxSession j _ _ _ _ _ | .markStopped j _ _ _
  | .bumpGeneration j _ _ _ | .purgeRows j | .releaseRun j _ _ => j = id
  | _ => False

theorem Stmt.onRow_rests {row : Workspace} (hstop : row.state = .stopped) (h : ¬ stmt.Moves id) :
    row.Rests (stmt.onRow cfg w id row) := by
  cases stmt with
  | setState j state reason patch | finishRun j outcome | recordSandboxSession j state reason hosts kind cmd
  | markStopped j reason state size | bumpGeneration j read blob release | purgeRows j | releaseRun j ref error =>
    have hj : j ≠ id := h
    simp only [onRow, if_neg hj]
    exact ⟨rfl, rfl, rfl, rfl⟩
  | markLost j reason =>
    simp only [onRow, Workspace.markLost, hstop]
    split <;> exact ⟨rfl, rfl, rfl, rfl⟩
  | _ =>
    simp only [onRow, Workspace.noteBootPhase, Workspace.replaceRunId]
    repeat' split
    all_goals exact ⟨rfl, rfl, rfl, rfl⟩

/-- Only a run in flight for the workspace, or the sweep, moves its row. -/
theorem Proc.Does.moves {me : Pid} {p : Proc} (h : p.Does me stmt) (hm : stmt.Moves id) :
    p.runsFor id = true ∨ ∃ ref error, stmt = .releaseRun id ref error := by
  cases h with
  | quiet | lostClose | lostUpdate | openSession | warn | orphan | stale => exact hm.elim
  | @body r b stmt at_ h =>
    left
    have hid : r.ws = id := by
      cases stmt <;> first | exact hm.elim | exact h.elim | exact h.symm.trans hm | exact h.1.symm.trans hm
    simp [runsFor, Run.inFlight, at_, hid]
  | @finish r outcome at_ =>
    left
    have hid : r.ws = id := hm
    simp [runsFor, Run.inFlight, at_, hid]
  | @call p j stmt h => cases stmt <;> first | exact hm.elim | exact h.elim
  | @release row error =>
    have hid : row.ws = id := hm
    exact .inr ⟨_, _, by rw [hid]⟩

/-- Only some statements start a VM session. -/
theorem Stmt.onSandbox_ended {sb sb' : Sandbox} (hsb : w.sandboxes name = some sb)
    (h : stmt.onSandbox cfg w name (some sb) = some sb') (hstart : stmt.startsVm ≠ some name)
    (he : sb.status.ended = true) : sb'.status.ended = true := by
  cases stmt with
  | getOrCreate other | resume other | startArchive other | finishArchive other =>
    have hne : name ≠ other := by rintro rfl; exact hstart rfl
    simp only [onSandbox, if_neg hne, Option.some.injEq] at h
    exact h ▸ he
  | boot other checkout =>
    simp only [onSandbox] at h
    split at h
    · rcases Option.or_eq_some_iff.1 h with hb | ⟨-, hb⟩
      · obtain ⟨row, sb₀, hboots⟩ := World.boots_of_booted hb
        cases hsb.symm.trans hboots.sandbox
        rw [hboots.running] at he
        cases he
      · cases hb
        exact he
    · cases h
      exact he
  | stopSandbox other | endSession other status =>
    simp only [onSandbox, Option.map_some, Sandbox.endSession, he, ↓reduceIte] at h
    split at h <;> cases h <;> exact he
  | deleteSandbox other how =>
    cases how with
    | deleted =>
      simp only [onSandbox] at h
      split at h <;> cases h
      exact he
    | onlyStopped =>
      simp only [onSandbox, Option.map_some, Sandbox.endSession, he, ↓reduceIte] at h
      split at h <;> cases h <;> exact he
    | nothing =>
      cases h
      exact he
  | edit other files =>
    simp only [onSandbox, Option.map_some] at h
    repeat' split at h
    all_goals
      cases h
      exact he
  | startSupervisor j other cmd =>
    simp only [onSandbox, Option.map_some] at h
    split at h <;> cases h <;> exact he
  | _ =>
    cases h
    exact he

/-- A VM session was going on before, or the statement may have started it. -/
theorem Stmt.exec_vmLive (h : w.vmLive name = false) (hstart : stmt.startsVm ≠ some name) :
    (stmt.exec cfg w).vmLive name = false := by
  unfold World.vmLive at h ⊢
  cases hsb' : (stmt.exec cfg w).sandboxes name with
  | none => rfl
  | some sb' =>
    cases hsb : w.sandboxes name with
    | none =>
      rcases Stmt.exec_sandboxes cfg (by rw [hsb']; exact Option.some_ne_none sb') with hsome | rfl
      · exact absurd hsb hsome
      · exact absurd rfl hstart
    | some sb =>
      rw [hsb] at h
      rw [Stmt.exec_onSandbox, hsb] at hsb'
      have he : sb.status.ended = true := by simpa using h
      simpa using Stmt.onSandbox_ended hsb hsb' hstart he

/-! ## The world -/

theorem World.retention_empty (now : Int) : (World.empty now).Retention cfg :=
  ⟨by rintro id t ⟨⟩, by rintro id row t ⟨⟩, List.nodup_nil⟩

/-- What a statement has checked that stops a row and leaves its deadline. -/
theorem Stmt.KeepsDeadline.restops (hk : stmt.KeepsDeadline cfg w) {row : Workspace} (hre : stmt.Restops id row)
    (hrow : w.rows id = some row) {t : Int} (ht : w.hist.vmEndedAt id = some t) : row.Retains cfg t := by
  cases stmt with
  | setState j state reason patch | recordSandboxSession j state reason hosts kind cmd =>
    cases state <;> first | exact hre.elim | skip
    obtain rfl : j = id := hre
    exact hk row hrow t ht
  | markLost j reason =>
    obtain ⟨rfl, hrun⟩ := hre
    exact hk row hrow hrun t ht
  | _ => exact hre.elim

/-- A statement that ends a VM session stops no row, and has checked one that is stopped. -/
theorem Stmt.KeepsDeadline.endsVm (hk : stmt.KeepsDeadline cfg w) (hends : stmt.EndsVm name) (hlive : w.vmLive name = true)
    {row : Workspace} (hrow : w.rows name.workspace = some row)
    (hstop : row.state = .stopped ∨ stmt.Restops name.workspace row) : row.Retains cfg w.now := by
  cases stmt with
  | stopSandbox other | endSession other status =>
    obtain rfl : other = name := hends
    rcases hstop with hstop | hre
    · exact hk hlive row hrow hstop
    · exact hre.elim
  | deleteSandbox other how =>
    cases how with
    | nothing => exact hends.elim
    | deleted | onlyStopped =>
      obtain rfl : other = name := hends
      rcases hstop with hstop | hre
      · exact hk hlive row hrow hstop
      · exact hre.elim
  | _ => exact hends.elim

theorem World.Retention.exec (hw : w.Retention cfg) (hk : stmt.KeepsDeadline cfg w) (hr : stmt.Regular)
    (hf : ∀ j error, stmt ≠ .finishRun j (.failed error (some .stopped)))
    (hins : ∀ j release idle, stmt = .insertWorkspace j release idle → j ∉ w.ids) : (stmt.exec cfg w).Retention cfg := by
  have hnow := stmt.now_le_exec cfg w
  refine ⟨fun id t ht => ?_, fun id row' t hrow' hstop ht => ?_, ?_⟩
  · rcases Stmt.exec_vmEndedAt ht with ht | ⟨rfl, -⟩
    · exact (hw.past id t ht).trans hnow
    · exact hnow
  · rcases Stmt.exec_rows_cases hrow' with ⟨row, hrow, rfl⟩ | ⟨release, idle, -, rfl⟩
    · have hle : t ≤ w.now := by
        rcases Stmt.exec_vmEndedAt ht with ht | ⟨rfl, -⟩
        · exact hw.past id t ht
        · exact le_refl _
      rcases Stmt.onRow_stopped hr hf hstop with hnew | ⟨hsame, hstop⟩
      · intro deadline hd
        cases hnew.symm.trans hd
        omega
      have hold : row.Retains cfg t := by
        rcases Stmt.exec_vmEndedAt ht with ht | ⟨rfl, name, hends, rfl, hlive⟩
        · rcases hstop with hstop | hre
          · exact hw.stopped id row t hrow hstop ht
          · exact hk.restops hre hrow ht
        · exact hk.endsVm hends hlive hrow hstop
      intro deadline hd
      exact hold deadline (hsame ▸ hd)
    · rintro deadline ⟨⟩
  · cases stmt with
    | insertWorkspace j release idle =>
      exact List.nodup_append.2 ⟨hw.listed, List.nodup_singleton j, fun a ha b hb => by
        rintro rfl
        exact hins a release idle (by rw [List.mem_singleton.1 hb]) ha⟩
    | deleteSandbox other how => cases how <;> exact hw.listed
    | _ => exact hw.listed

/-! ## Selected workspaces -/

/-- What a gc run relies on of a workspace it has selected: the row is stopped past its deadline, and idle. -/
structure Sys.Selected (s : Sys) (id : WsId) : Prop where
  row : ∃ row deadline, s.world.rows id = some row ∧ row.state = .stopped ∧ row.retentionUntil = some deadline ∧
    deadline ≤ s.world.now
  idle : s.Idle id

section
variable {s s' : Sys} {e : SysEvent}

theorem mem_expiredWorkspaces {now : Int} (h : id ∈ expiredWorkspaces now w) : ∃ row deadline, w.rows id = some row ∧
    row.state = .stopped ∧ row.retentionUntil = some deadline ∧ deadline < now := by
  obtain ⟨-, hany⟩ := List.mem_filter.1 h
  obtain ⟨row, hrow, hexp⟩ := (Option.any_eq_true _ _).1 hany
  simp only [Workspace.expired, Bool.and_eq_true, decide_eq_true_eq, Option.any_eq_true] at hexp
  obtain ⟨⟨⟨hstop, -⟩, deadline, hdeadline, hlt⟩, -⟩ := hexp
  exact ⟨row, deadline, hrow, hstop, hdeadline, hlt⟩

theorem Proc.runsFor_iff {p : Proc} : p.runsFor id = true ↔ ∃ r, p = .run r ∧ r.inFlight = true ∧ r.ws = id := by
  cases p with
  | run r => simp [runsFor]
  | _ => simp [runsFor]

/-- A selected workspace stays so when its row rests, and neither a run nor a VM session is started for it. -/
theorem Sys.Selected.step (hsel : s.Selected id) (h : (lifecycle cfg).step s e = some s') (hperf : s.Performs cfg e stmt)
    (hworld : s'.world = stmt.exec cfg s.world) (hmoves : ¬ stmt.Moves id)
    (hstarts : ∀ n a p p' stmt' x, e = .act n a → s.procs n = some p →
      p.next cfg n a s.world = some (stmt', p', some x) → x.ws ≠ id)
    (hvm : ∀ name ∈ stmt.startsVm, ∀ row ∈ s.world.rows id, name ∉ row.sandboxName :: row.previousSandboxName.toList) :
    s'.Selected id := by
  obtain ⟨⟨row, deadline, hrow, hstop, hdeadline, hpast⟩, hruns, hnames⟩ := hsel
  have hrow' : s'.world.rows id = some (stmt.onRow cfg s.world id row) := by
    rw [hworld]
    exact hperf.rows_kept hrow
  have hrests : row.Rests (stmt.onRow cfg s.world id row) := Stmt.onRow_rests hstop hmoves
  have hnow : s.world.now ≤ s'.world.now := by
    rw [hworld]
    exact stmt.now_le_exec cfg s.world
  refine ⟨⟨_, deadline, hrow', hrests.state.trans hstop, hrests.deadline.trans hdeadline, hpast.trans hnow⟩, ?_, ?_⟩
  · intro k q' hq'
    by_contra hfor
    obtain ⟨r', rfl, hf, hws⟩ := Proc.runsFor_iff.1 (Bool.not_eq_false _ ▸ hfor)
    rcases (Sys.origin h hq').run with ⟨r, hr, hsame⟩ | ⟨n, a, p, p', stmt', x, he, hp, hn, -, -, rfl⟩
    · have hold : (Proc.run r).runsFor id = true :=
        Proc.runsFor_iff.2 ⟨r, rfl, hsame.inFlight hf, hsame.ws.symm.trans hws⟩
      rw [hruns k _ hr] at hold
      cases hold
    · exact hstarts n a p p' stmt' x he hp hn hws
  · intro row' hr' name hname
    cases hrow'.symm.trans hr'
    rw [hrests.name, hrests.previous] at hname
    rw [hworld]
    refine Stmt.exec_vmLive (hnames row hrow name hname) fun hst => ?_
    exact hvm name hst row hrow hname

/-- How a step of a gc run changes what is ahead: it lets go, selects, or begins with the first. -/
inductive GcPc.Ahead (now : Int) (w : World) (pc pc' : GcPc) (stmt : Stmt) (st : Option Starts) : Prop
  | empty (h : pc'.ahead = [])
  | kept (hs : stmt = .nothing) (hst : st = none) (h : pc'.ahead.Sublist pc.ahead)
  | selected (hs : stmt = .nothing) (hst : st = none) (hpc : pc = .expired) (h : pc'.ahead = expiredWorkspaces now w)
  | begun {x : Starts} (hs : stmt = .nothing) (hst : st = some x) (h : pc.ahead = x.ws :: pc'.ahead)

theorem GcPc.next_ahead {now : Int} {pc pc' : GcPc} {a : Answer} {st : Option Starts}
    (h : pc.next now a w = some (stmt, pc', st)) (ha : ∀ g, (Proc.gc g).losesStart a = false) :
    GcPc.Ahead now w pc pc' stmt st := by
  revert h
  fun_cases GcPc.next now pc a w
  case case3 => rintro ⟨⟩; exact .selected rfl rfl rfl rfl
  case case4 ids => rintro ⟨⟩; exact .kept rfl rfl (by simp [ahead])
  case case6 id queue names child =>
    intro h
    obtain ⟨d, hd, he⟩ := Option.map_eq_some_iff.1 h
    have hstmt := ChildPc.next_stmt hd
    have hstep := ChildPc.step_of_next hd
    cases he
    obtain ⟨stmt₀, next, starts⟩ := d
    subst hstmt
    cases hstep with
    | start => exact .begun rfl rfl rfl
    | crashed => cases ha ⟨now, .done⟩
    | stored | waits | settled | returned => exact .kept rfl rfl (List.Sublist.refl _)
    | notStarted | notStored | lost | failed => exact .empty rfl
  all_goals rintro ⟨⟩ <;> exact .empty rfl

/-! ## Runs -/

/-- Deadlines are kept, gc runs started in the past, and what they have selected is there to delete. -/
structure Sys.Retained (cfg : Config) (s : Sys) : Prop where
  world : s.world.Retention cfg
  closing : s.ClosesPlainly
  started : ∀ n g, s.procs n = some (.gc g) → g.now ≤ s.world.now
  ahead : ∀ n p, s.procs n = some p → p.ahead.Nodup ∧ ∀ id ∈ p.ahead, s.Selected id

theorem Arrival.notMem_of_insert {i : Arrival} {p : Proc} {release : EditorRelease} {idle : Nat}
    (h : i.accept cfg w = some (.insertWorkspace id release idle, p)) : id ∉ w.ids := by
  cases i with
  | create j release idle =>
    simp only [accept] at h
    split at h
    · next hc =>
      cases h
      exact hc.2.1
    · cases h
  | start j input => simp only [accept] at h; split at h <;> cases h
  | connect j reason tabId clientBuild => cases h
  | reconcile j =>
    obtain ⟨row, -, h⟩ := Option.bind_eq_some_iff.1 h
    obtain ⟨ref, -, h⟩ := Option.map_eq_some_iff.1 h
    cases h
  | gc => cases h

/-- What a step performs keeps the deadlines. -/
theorem KeepsRetention.deadline (hg : KeepsRetention cfg s e) (hperf : s.Performs cfg e stmt) :
    stmt.KeepsDeadline cfg s.world := by
  cases hperf with
  | arrive free ha =>
    rcases Arrival.accept_cases ha with ⟨_, _, _, -, -, rfl, -⟩ | ⟨rfl, -⟩ <;> trivial
  | act hp hn => exact ((hg _ hp).2.2 _ hn).1
  | halt => trivial
  | env => exact hg

theorem Sys.Retained.world_step (hs : s.Retained cfg) (hg : KeepsRetention cfg s e) (hperf : s.Performs cfg e stmt) :
    (stmt.exec cfg s.world).Retention cfg := by
  have hregular : stmt.Regular := by
    cases hperf with
    | arrive free ha => exact Arrival.accept_regular ha
    | act hp hn => exact (Proc.next_does hn).regular
    | halt => trivial
    | env => exact Ambient.stmt_regular _
  refine hs.world.exec (hg.deadline hperf) hregular ?_ ?_
  · rintro j error rfl
    obtain ⟨n, a, p, p', st, rfl, hp, hn⟩ := hperf.act_of (by rintro ⟨⟩) (by rintro _ _ _ ⟨⟩) (by rintro ⟨⟩ ⟨⟩)
    obtain ⟨r, rfl, hphase, -⟩ := (Proc.next_does hn).finishRun_of
    cases hs.closing n r error (some .stopped) hp hphase
  · rintro j release idle rfl
    generalize hstmt : Stmt.insertWorkspace j release idle = stmt at hperf
    cases hperf with
    | arrive free ha => exact Arrival.notMem_of_insert (hstmt ▸ ha)
    | act hp hn => exact ((Proc.next_does (hstmt ▸ hn)).ne_insert).elim
    | halt => cases hstmt
    | @env x => cases x <;> cases hstmt

/-- What other gc runs have selected stays selected. -/
theorem Sys.Selected.kept {k : Pid} {q : Proc} (hg : KeepsRetention cfg s e) (h : (lifecycle cfg).step s e = some s')
    (hperf : s.Performs cfg e stmt) (hworld : s'.world = stmt.exec cfg s.world) (hq : s.procs k = some q)
    (hk : SysEvent.pid e ≠ some k) (hm : id ∈ q.ahead) (hsel : s.Selected id) : s'.Selected id := by
  cases hperf with
  | arrive free ha =>
    rcases Arrival.accept_cases ha with ⟨_, _, _, -, -, rfl, -⟩ | ⟨rfl, -⟩ <;>
      exact hsel.step h (.arrive free ha) hworld (fun hm => hm) (by rintro _ _ _ _ _ _ ⟨⟩) (by rintro name ⟨⟩)
  | @act n a p p' stmt st hp hn =>
    have hne : k ≠ n := fun he => hk (congrArg some he.symm)
    obtain ⟨hstarts, hrelease, hvm⟩ := ((hg p hp).2.2 _ hn).2 k q hq hne id hm
    refine hsel.step h (.act hp hn) hworld (fun hmoves => ?_) ?_ hvm
    · rcases (Proc.next_does hn).moves hmoves with hfor | ⟨ref, error, rfl⟩
      · rw [hsel.idle.1 n p hp] at hfor
        cases hfor
      · exact hrelease rfl
    · rintro n' a' p₁ p₁' stmt' x ⟨⟩ hp₁ hn₁
      cases hp.symm.trans hp₁
      cases hn.symm.trans hn₁
      exact hstarts x rfl
  | halt => exact hsel.step h .halt hworld (fun hm => hm) (by rintro _ _ _ _ _ _ ⟨⟩) (by rintro name ⟨⟩)
  | @env x =>
    refine hsel.step h .env hworld ?_ (by rintro _ _ _ _ _ _ ⟨⟩) ?_
    · cases x <;> exact fun hm => hm
    · cases x <;> rintro name ⟨⟩

/-- What a gc run has selected after a step of its own. -/
theorem Sys.Retained.acted {n : Pid} {a : Answer} {g : Gc} {pc' : GcPc} {st : Option Starts} (hs : s.Retained cfg)
    (hg : KeepsRetention cfg s (.act n a)) (h : (lifecycle cfg).step s (.act n a) = some s')
    (hp : s.procs n = some (.gc g)) (hn : (Proc.gc g).next cfg n a s.world = some (stmt, .gc { g with pc := pc' }, st))
    (hpc : g.pc.next g.now a s.world = some (stmt, pc', st)) : pc'.ahead.Nodup ∧ ∀ id ∈ pc'.ahead, s'.Selected id := by
  obtain ⟨hselects, hlose, -⟩ := hg _ hp
  obtain ⟨hnodup, hahead⟩ := hs.ahead n _ hp
  have hquiet : stmt = .nothing → ∀ id, s.Selected id → (∀ x, st = some x → x.ws ≠ id) → s'.Selected id := by
    rintro rfl id hsel hstarts
    obtain ⟨stmt', p', st', hn', -, hworld, -⟩ := Sys.procs_acted h hp
    cases hn.symm.trans hn'
    refine hsel.step h (.act hp hn) hworld (fun hm => hm) ?_ (by rintro name ⟨⟩)
    rintro n' a' p₁ p₁' stmt' x ⟨⟩ hp₁ hn₁
    cases hp.symm.trans hp₁
    cases hn.symm.trans hn₁
    exact hstarts x rfl
  have hlives : ∀ g', (Proc.gc g').losesStart a = false := fun g' => by
    cases a <;> first | rfl | cases hlose
  cases GcPc.next_ahead hpc hlives with
  | empty he =>
    rw [he]
    exact ⟨List.nodup_nil, by rintro id ⟨⟩⟩
  | kept hstmt hst hsub =>
    refine ⟨hsub.nodup hnodup, fun id hm => hquiet hstmt id (hahead id (hsub.subset hm)) ?_⟩
    rintro x hx
    cases hst.symm.trans hx
  | selected hstmt hst hexpired he =>
    rw [he]
    refine ⟨hs.world.listed.filter _, fun id hm => hquiet hstmt id ?_ ?_⟩
    · obtain ⟨row, deadline, hrow, hstop, hdeadline, hlt⟩ := mem_expiredWorkspaces hm
      have hpast : deadline ≤ s.world.now := (Int.le_of_lt hlt).trans (hs.started n g hp)
      obtain ⟨now, pc⟩ := g
      cases hexpired
      exact ⟨⟨row, deadline, hrow, hstop, hdeadline, hpast⟩, hselects id hm⟩
    · rintro x hx
      cases hst.symm.trans hx
  | @begun x hstmt hst he =>
    have hcons : (x.ws :: pc'.ahead).Nodup := he ▸ hnodup
    obtain ⟨hnotMem, htail⟩ := List.nodup_cons.1 hcons
    refine ⟨htail, fun id hm => hquiet hstmt id (hahead id ?_) ?_⟩
    · show id ∈ g.pc.ahead
      rw [he]
      exact List.mem_cons_of_mem _ hm
    · rintro y hy rfl
      cases hst.symm.trans hy
      exact hnotMem hm

theorem Sys.Retained.step (hs : s.Retained cfg) (hg : KeepsRetention cfg s e) (h : (lifecycle cfg).step s e = some s') :
    s'.Retained cfg := by
  obtain ⟨stmt, hperf, hworld⟩ := Sys.world_step h
  have hnow : s.world.now ≤ s'.world.now := by
    rw [hworld]
    exact stmt.now_le_exec cfg s.world
  refine ⟨?_, hs.closing.step h, fun n g' hg' => ?_, fun n q hq => ?_⟩
  · rw [hworld]
    exact hs.world_step hg hperf
  · generalize hqe : Proc.gc g' = q at hg'
    cases Sys.origin h hg' with
    | same hold hne => subst hqe; exact (hs.started n g' hold).trans hnow
    | started => cases hqe
    | halted => cases hqe
    | @acted n a p p' stmt st he hp hn =>
      subst hqe
      cases p with
      | gc g =>
        obtain ⟨pc, -, hg'⟩ := Proc.next_gc hn
        cases hg'
        exact (hs.started n g hp).trans hnow
      | run r => obtain ⟨_, _, -, hg', -⟩ := Proc.next_run hn; cases hg'
      | call c => obtain ⟨_, -, hg'⟩ := Proc.next_call hn; cases hg'
      | request r => obtain ⟨_, -, hg'⟩ := Proc.next_request hn; cases hg'
      | reconcile r => obtain ⟨_, -, hg', -⟩ := Proc.next_reconcile hn; cases hg'
    | @arrived n i stmt p he free ha =>
      subst hqe
      rcases Arrival.accept_cases ha with
        ⟨_, _, _, -, -, -, hp⟩ | ⟨-, ⟨_, _, -, hp⟩ | ⟨_, hp⟩ | ⟨_, hp⟩ | hp⟩ <;> cases hp
      exact hnow
  · have hnone : ∀ p : Proc, p.ahead = [] → p.ahead.Nodup ∧ ∀ id ∈ p.ahead, s'.Selected id := fun p hp => by
      rw [hp]
      exact ⟨List.nodup_nil, by rintro id ⟨⟩⟩
    cases Sys.origin h hq with
    | same hold hne =>
      obtain ⟨hnodup, hahead⟩ := hs.ahead n q hold
      exact ⟨hnodup, fun id hm => (hahead id hm).kept hg h hperf hworld hold hne hm⟩
    | started => exact hnone _ rfl
    | halted => exact hnone _ rfl
    | @acted n a p p' stmt st he hp hn =>
      subst he
      cases p with
      | gc g =>
        obtain ⟨pc, hpc, rfl⟩ := Proc.next_gc hn
        exact hs.acted hg h hp hn hpc
      | run r => obtain ⟨_, _, -, rfl, -⟩ := Proc.next_run hn; exact hnone _ rfl
      | call c => obtain ⟨_, -, rfl⟩ := Proc.next_call hn; exact hnone _ rfl
      | request r => obtain ⟨_, -, rfl⟩ := Proc.next_request hn; exact hnone _ rfl
      | reconcile r => obtain ⟨_, -, rfl, -⟩ := Proc.next_reconcile hn; exact hnone _ rfl
    | @arrived n i stmt p he free ha =>
      refine hnone _ ?_
      rcases Arrival.accept_cases ha with
        ⟨_, _, _, -, -, -, rfl⟩ | ⟨-, ⟨_, _, -, rfl⟩ | ⟨_, rfl⟩ | ⟨_, rfl⟩ | rfl⟩ <;> rfl

theorem retained_of_reach (h : (lifecycle cfg).Reach (KeepsRetention cfg) s) : s.Retained cfg := by
  refine h.invariant (fun s hs => ?_) fun t e u _ ht hg he => ht.step hg he
  obtain ⟨⟨now, hw⟩, hentries⟩ := hs
  have hnone : ∀ n, s.procs n = none := fun n => by simp [Table.procs, hentries]
  refine ⟨?_, ?_, ?_, ?_⟩
  · rw [hw]
    exact World.retention_empty now
  · rintro X r error state hX; cases (hnone X).symm.trans hX
  · rintro n g hn; cases (hnone n).symm.trans hn
  · rintro n p hn; cases (hnone n).symm.trans hn

theorem Sys.mem_ahead_of_aboutToDelete {n : Pid} (h : s.aboutToDelete n = some id) :
    ∃ p, s.procs n = some p ∧ id ∈ p.ahead := by
  unfold aboutToDelete at h
  split at h
  · next g hp =>
    refine ⟨_, hp, ?_⟩
    unfold GcPc.aboutToDelete at h
    split at h
    · next hpc =>
      cases h
      simp [Proc.ahead, GcPc.ahead, hpc]
    · cases h
  · cases h

end

/-- A workspace whose deletion gc starts is stopped, no run is in flight for it, and its retention is over. -/
theorem gc_retention {s : Sys} {n : Pid} (h : (lifecycle cfg).Reach (KeepsRetention cfg) s)
    (hd : s.aboutToDelete n = some id) : s.MayDelete cfg id := by
  have hs := retained_of_reach h
  obtain ⟨p, hp, hm⟩ := Sys.mem_ahead_of_aboutToDelete hd
  obtain ⟨⟨row, deadline, hrow, hstop, hdeadline, hpast⟩, hruns, hnames⟩ := (hs.ahead n p hp).2 id hm
  refine ⟨⟨row, hrow, hstop⟩, ?_, ?_, fun t ht => ?_⟩
  · rintro k ⟨r, hr, hf, hws⟩
    have hfor := hruns k _ hr
    simp [Proc.runsFor, hf, hws] at hfor
  · intro row' hr' name hname
    cases hrow.symm.trans hr'
    refine hnames row hrow name ?_
    rcases hname with rfl | hprev
    · exact List.mem_cons_self
    · exact List.mem_cons_of_mem _ (Option.mem_toList.2 hprev)
  · have hle : t + cfg.retentionDays * dayMs ≤ deadline := hs.world.stopped id row t hrow hstop ht deadline hdeadline
    omega

/-! ## Runs -/

/-- A workspace stopped for 33 days, with its retention of 30 days over. -/
theorem gc_retention_stopped : ∃ s : Sys, s.aboutToDelete 5 = some 0 ∧ s.world.hist.vmEndedAt 0 = some 0 ∧
    s.MayDelete deployment 0 := by
  obtain ⟨s, hr, hd, ht⟩ := exists_reach_of_execs (G := KeepsRetention deployment)
    (fun s : Sys => s.aboutToDelete 5 = some 0 ∧ s.world.hist.vmEndedAt 0 = some 0)
    (createsWorkspace 0 0 1 7 ++ stops 0 2 3 ++ [.env (.tick 2160000000), .arrive 4 .gc] ++ steps 4 4 ++
      [.env (.tick 691200000), .arrive 5 .gc] ++ steps 5 4)
    (lifecycle_init deployment 0) (by decide) (by decide)
  exact ⟨s, hd, ht, gc_retention hr hd⟩

/-- A request that resumes a stopped workspace, and the run it starts, up to its end. -/
def resumesStopped (id : WsId) (request : Pid) (run : RunId) : List SysEvent :=
  [.arrive request (.connect id .resume 9 none)] ++ steps request 2 ++ [.act request (.release oldRelease)] ++
    steps request 1 ++ startsRun request run ++ steps run 3 ++ [.act run (.cmd run)] ++ steps run 1 ++
    [.env (.boot (newSandboxName id 1) 7), .act run ready] ++ steps run 2

/-- A workspace stopped for 25 days and warned is resumed and used for ten days. Its VM dies, a request that
redials stops the row with the old deadline, and gc deletes the workspace in the same minute. -/
theorem gc_deletes_lost_workspace : ¬ ∀ (cfg : Config) (s : Sys) (n : Pid) (id : WsId),
    (lifecycle cfg).Reach System.free s → s.aboutToDelete n = some id → s.MayDelete cfg id := by
  intro h
  obtain ⟨s, hr, hd, hended⟩ := exists_reach_of_exec
    (fun s : Sys => s.aboutToDelete 8 = some 0 ∧ s.world.hist.vmEndedAt 0 = some s.world.now)
    (createsWorkspace 0 0 1 7 ++ stops 0 2 3 ++ [.env (.tick 2160000000), .arrive 4 .gc] ++ steps 4 2 ++
      resumesStopped 0 5 6 ++
      [.env (.tick 864000000), .env (.endSession (newSandboxName 0 1) ⟨.stopped, rfl⟩)] ++
      [.arrive 7 (.connect 0 .reconnect 9 none)] ++ steps 7 2 ++
      [.act 7 (.release oldRelease), .act 7 (.sandboxStatus (some (some .stopped)))] ++ steps 7 2 ++
      [.arrive 8 .gc] ++ steps 8 4)
    (lifecycle_init deployment 0) (by decide)
  have hpast := (h deployment s 8 0 hr hd).retained _ hended
  have hdays : deployment.retentionDays * dayMs = 2592000000 := by decide
  omega

end Zedspaces.Lifecycle
