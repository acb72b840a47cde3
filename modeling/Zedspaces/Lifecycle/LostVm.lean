/-
A stale "the VM is gone". A connect request reads a row, finds the VM session recorded there dead, and
reconciles the row in two statements: `closeOpenSession` ends the open editor sessions of the workspace,
the update of `markWorkspaceLost` moves a `running` row to `stopped`. Both look at the workspace and at
the state only, not at the VM session that was found dead. After a stop and a resume the state is
`running` again, so a slow request hits the later VM session (`stale_loss_hits_later_session`).

The request is harmless when no later VM session has been recorded on the row by then. Sessions and rows
name only recorded VM sessions, which is the invariant; the request's own copy of the row is covered by
the same bound.
-/
import Zedspaces.Lifecycle.Effects
import Mathlib.Data.List.Nodup

namespace Zedspaces.Lifecycle

open Lib Lib.System

variable {cfg : Config} {w w' : World} {stmt : Stmt} {id : WsId} {σ : VmSession}

/-! ## Recorded VM sessions -/

/-- The ids of the sessions number them in the order of their insertion. -/
def Numbered (sessions : List Session) : Prop := sessions.map (·.id) = List.range sessions.length

/-- What a row or an editor session names is not later than the latest VM session recorded on the row. -/
structure World.SessionsRecorded (w : World) : Prop where
  rows : ∀ id row, w.rows id = some row → ∀ τ ∈ row.currentSandboxSessionId, τ ≤ w.hist.maxRecorded id
  sessions : ∀ x ∈ w.sessions, ∀ τ ∈ x.sandboxSessionId, τ ≤ w.hist.maxRecorded x.workspaceId
  numbered : Numbered w.sessions

theorem Stmt.maxRecorded_le_exec (cfg : Config) (stmt : Stmt) (w : World) (id : WsId) :
    w.hist.maxRecorded id ≤ (stmt.exec cfg w).hist.maxRecorded id := by
  cases stmt with
  | deleteSandbox name how => cases how <;> exact le_refl _
  | recordSandboxSession j state reason hosts kind cmd =>
    simp only [exec, stepRecordSandboxSession, Function.update_apply]
    split
    · rename_i h
      exact h ▸ le_max_left _ _
    · exact le_refl _
  | _ => exact le_refl _

/-- A row comes to name a VM session only when that session is recorded. -/
theorem Stmt.onRow_currentSandboxSessionId {row : Workspace} {τ : VmSession} (hr : stmt.Regular)
    (h : (stmt.onRow cfg w id row).currentSandboxSessionId = some τ) :
    row.currentSandboxSessionId = some τ ∨
      ∃ state reason hosts kind cmd, stmt = .recordSandboxSession id state reason hosts kind cmd ∧ τ = hosts.sessionId := by
  cases stmt with
  | setState j state reason patch =>
    left
    simp only [onRow] at h
    split at h
    · rcases hr with rfl | rfl | rfl <;> exact h
    · exact h
  | recordSandboxSession j state reason hosts kind cmd =>
    simp only [onRow] at h
    split at h
    · rename_i hj
      subst hj
      exact .inr ⟨_, _, _, _, _, rfl, (Option.some.inj h).symm⟩
    · exact .inl h
  | bumpGeneration j read blob release =>
    simp only [onRow] at h
    split at h
    · cases h
    · exact .inl h
  | _ =>
    left
    simp only [onRow, Workspace.finishRun, Workspace.noteBootPhase, Workspace.markLost, Workspace.replaceRunId,
      Workspace.releaseRun] at h
    repeat' split at h
    all_goals exact h

theorem Numbered.map {sessions : List Session} (h : Numbered sessions) {f : Session → Session}
    (hf : ∀ x, (f x).id = x.id) : Numbered (sessions.map f) := by
  unfold Numbered at h ⊢
  rw [List.map_map, List.length_map, ← h]
  exact List.map_congr_left fun x _ => hf x

theorem Numbered.append {sessions : List Session} (h : Numbered sessions) {x : Session}
    (hx : x.id = sessions.length) : Numbered (sessions ++ [x]) := by
  unfold Numbered at h ⊢
  simp [h, hx, List.range_succ]

theorem Numbered.eq_of_id {sessions : List Session} (h : Numbered sessions) {x y : Session} (hx : x ∈ sessions)
    (hy : y ∈ sessions) (hid : x.id = y.id) : x = y := by
  have hnodup : (sessions.map (·.id)).Nodup := h ▸ List.nodup_range
  exact List.inj_on_of_nodup_map hnodup hx hy hid

theorem arbitrateSession_sessions (j : WsId) (read : Workspace) (input : OpenSessionInput) (w : World) :
    (∃ op, w.sessions.find? (fun s => decide (s.workspaceId = j ∧ s.holderTabId = input.tabId ∧ s.endedAt = none)) =
        some op ∧
      (arbitrateSession j read input w).sessions = w.sessions.map fun s => if s.id = op.id then
        { s with wsHost := input.host, sandboxSessionId := read.currentSandboxSessionId } else s) ∨
    ∃ f : Session → Session, (∀ x, (f x).id = x.id ∧ (f x).workspaceId = x.workspaceId ∧
        (f x).sandboxSessionId = x.sandboxSessionId) ∧
      (arbitrateSession j read input w).sessions = w.sessions.map f ++ [newSession j read input w] := by
  unfold arbitrateSession
  cases hf : w.sessions.find? _ with
  | none => exact .inr ⟨id, fun x => ⟨rfl, rfl, rfl⟩, by simp⟩
  | some op =>
    by_cases hg : op.sandboxGeneration = read.sandboxGeneration
    · exact .inl ⟨op, rfl, by simp [hg]⟩
    · refine .inr ⟨fun s => if s.id = op.id then
        { s with endedAt := some w.now, endReason := some "generation_changed" } else s, fun x => ?_, by simp [hg]⟩
      dsimp only
      split <;> exact ⟨rfl, rfl, rfl⟩

theorem Stmt.exec_numbered (h : Numbered w.sessions) : Numbered (stmt.exec cfg w).sessions := by
  cases stmt with
  | recordSessionEnd j reason => exact h.map fun x => by split <;> rfl
  | closeStaleSessions now selected => exact h.map fun x => by split <;> rfl
  | openSession j read input =>
    rcases arbitrateSession_sessions j read input w with ⟨op, -, he⟩ | ⟨f, hf, he⟩
    · simp only [exec, he]
      exact h.map fun x => by split <;> rfl
    · simp only [exec, he]
      exact (h.map fun x => (hf x).1).append (by simp [newSession])
  | deleteSandbox name how => cases how <;> exact h
  | _ => exact h

/-- An editor session comes to name a VM session only when a request opens or refreshes it. -/
theorem Stmt.exec_sessions {y : Session} (hids : Numbered w.sessions) (h : y ∈ (stmt.exec cfg w).sessions) :
    (∃ x ∈ w.sessions, y.workspaceId = x.workspaceId ∧ y.sandboxSessionId = x.sandboxSessionId) ∨
      ∃ read input, stmt = .openSession y.workspaceId read input ∧ y.sandboxSessionId = read.currentSandboxSessionId := by
  cases stmt with
  | recordSessionEnd j reason =>
    left
    obtain ⟨x, hx, rfl⟩ := List.mem_map.1 h
    refine ⟨x, hx, ?_⟩
    split <;> exact ⟨rfl, rfl⟩
  | closeStaleSessions now selected =>
    left
    obtain ⟨x, hx, rfl⟩ := List.mem_map.1 h
    refine ⟨x, hx, ?_⟩
    split <;> exact ⟨rfl, rfl⟩
  | openSession j read input =>
    rcases arbitrateSession_sessions j read input w with ⟨op, hop, he⟩ | ⟨f, hf, he⟩
    · simp only [exec, he] at h
      obtain ⟨x, hx, rfl⟩ := List.mem_map.1 h
      by_cases hid : x.id = op.id
      · have hxop := hids.eq_of_id hx (List.mem_of_find?_eq_some hop) hid
        have hj : x.workspaceId = j := by
          have := List.find?_some hop
          rw [hxop]
          exact (of_decide_eq_true this).1
        right
        simp only [hid, ↓reduceIte, hj]
        exact ⟨read, input, rfl, rfl⟩
      · left
        simp only [hid, ↓reduceIte]
        exact ⟨x, hx, rfl, rfl⟩
    · simp only [exec, he, List.mem_append, List.mem_singleton] at h
      rcases h with h | rfl
      · obtain ⟨x, hx, rfl⟩ := List.mem_map.1 h
        exact .inl ⟨x, hx, (hf x).2⟩
      · exact .inr ⟨read, input, rfl, rfl⟩
  | deleteSandbox name how => cases how <;> exact .inl ⟨y, h, rfl, rfl⟩
  | _ => exact .inl ⟨y, h, rfl, rfl⟩

/-- A statement keeps the bound when the row a request opens a session with respects it. -/
theorem World.SessionsRecorded.exec (h : w.SessionsRecorded) (hr : stmt.Regular)
    (ho : ∀ j read input, stmt = .openSession j read input →
      ∀ τ ∈ read.currentSandboxSessionId, τ ≤ w.hist.maxRecorded j) :
    (stmt.exec cfg w).SessionsRecorded := by
  have hmax := stmt.maxRecorded_le_exec cfg w
  refine ⟨fun i row' hrow τ hτ => ?_, fun y hy τ hτ => ?_, Stmt.exec_numbered h.numbered⟩
  · by_cases hins : ∀ release idle, stmt ≠ .insertWorkspace i release idle
    · rw [Stmt.exec_rows cfg stmt w i hins] at hrow
      obtain ⟨row, hrow', rfl⟩ := Option.map_eq_some_iff.1 hrow
      rcases Stmt.onRow_currentSandboxSessionId hr hτ with hτ | ⟨_, _, hosts, _, _, rfl, rfl⟩
      · exact (h.rows i row hrow' τ hτ).trans (hmax i)
      · simp only [Stmt.exec, stepRecordSandboxSession, Function.update_self]
        exact le_max_right _ _
    · simp only [not_forall, not_not] at hins
      obtain ⟨release, idle, rfl⟩ := hins
      simp only [Stmt.exec, insertWorkspace, Function.update_self, Option.some.injEq] at hrow
      subst hrow
      cases hτ
  · rcases Stmt.exec_sessions h.numbered hy with ⟨x, hx, hws, hs⟩ | ⟨read, input, hs, hread⟩
    · rw [hws]
      exact (h.sessions x hx τ (hs ▸ hτ)).trans (hmax _)
    · exact (ho _ _ _ hs τ (hread ▸ hτ)).trans (hmax _)

/-! ## Requests -/

/-- The row the request works with. -/
def RequestPc.row? : RequestPc → Option Workspace
  | .status ws | .gate ws | .detect ws _ _ | .lostClose ws _ | .lostUpdate ws _ | .openSession ws _ => some ws
  | _ => none

theorem ConnectInput.afterGate_row {r : ConnectInput} {ws ws' : Workspace} (h : (r.afterGate ws).row? = some ws') :
    ws' = ws := by
  unfold afterGate at h
  repeat' split at h
  all_goals simp_all [RequestPc.row?]

theorem ConnectInput.gate_row {r : ConnectInput} {ws ws' : Workspace} {release : EditorRelease}
    (h : (r.gate cfg ws release).row? = some ws') : ws' = ws := by
  unfold gate at h
  repeat' split at h
  all_goals first
    | exact afterGate_row h
    | cases h

theorem RequestPc.afterDetect_row {ws ws' : Workspace} {resumed : Bool} {x : DetectPc ⊕ Liveness}
    (h : (afterDetect ws resumed x).row? = some ws') : ws' = ws := by
  unfold afterDetect connectRunning at h
  repeat' split at h
  all_goals simp_all [RequestPc.row?]

/-- A request works with a row it has just read, or with the one it worked with before. -/
theorem RequestPc.next_row {me : Pid} {r : ConnectInput} {pc pc' : RequestPc} {a : Answer} {st : Option Starts}
    {ws : Workspace} (h : pc.next cfg me r a w = some (stmt, pc', st)) (hws : pc'.row? = some ws) :
    pc.row? = some ws ∨ w.rows r.ws = some ws := by
  revert h
  fun_cases RequestPc.next cfg me r pc a w
  case case1 =>
    rintro ⟨⟩
    cases hrow : w.liveRow r.ws with
    | some row =>
      rw [hrow] at hws
      cases hws
      exact .inr (World.liveRow_eq_some.1 hrow).1
    | none =>
      rw [hrow] at hws
      cases hws
  case case4 =>
    rintro ⟨⟩
    split at hws
    · cases hws
    · exact .inl hws
  case case6 => rintro ⟨⟩; exact .inl (congrArg some (ConnectInput.gate_row hws).symm)
  case case7 =>
    intro h
    obtain ⟨x, -, he⟩ := Option.map_eq_some_iff.1 h
    cases he
    exact .inl (congrArg some (afterDetect_row hws).symm)
  case case10 | case11 =>
    rintro ⟨⟩
    split at hws <;> cases hws
  case case12 =>
    intro h
    obtain ⟨x, -, he⟩ := Option.map_eq_some_iff.1 h
    cases he
    unfold afterCall at hws
    repeat' split at hws
    all_goals cases hws
  case case13 =>
    rintro ⟨⟩
    unfold afterPoll at hws
    split at hws
    · rename_i row hrow
      cases hws
      exact .inr (Option.filter_eq_some_iff.1 hrow).1
    · split at hws <;> cases hws
  all_goals rintro ⟨⟩ <;> first | exact .inl hws | cases hws

/-- The row a request works with names no VM session later than the recorded ones. -/
def Proc.RowRecorded (p : Proc) (w : World) : Prop := match p with
  | .request r => ∀ ws, r.pc.row? = some ws → ∀ τ ∈ ws.currentSandboxSessionId, τ ≤ w.hist.maxRecorded r.input.ws
  | _ => True

/-- The statement is regular, and a session it opens names a recorded VM session. -/
def OpensRecorded (s : Sys) (stmt : Stmt) : Prop := stmt.Regular ∧
  ∀ j read input, stmt = .openSession j read input →
    ∀ τ ∈ read.currentSandboxSessionId, τ ≤ s.world.hist.maxRecorded j

theorem recorded_outline (cfg : Config) (G : Sys → SysEvent → Prop) :
    WorldOutline cfg G OpensRecorded World.SessionsRecorded (fun p w => p.RowRecorded w) where
  init now := by
    refine ⟨fun _ _ h => ?_, fun _ h => ?_, rfl⟩ <;> cases h
  whole s stmt hw hj := hw.exec hj.1 hj.2
  each := by
    intro s stmt k q _ _ _ hq
    cases q with
    | request r => exact fun ws hws τ hτ => (hq ws hws τ hτ).trans (stmt.maxRecorded_le_exec cfg s.world _)
    | _ => trivial
  arrive := by
    intro s n i stmt p _ _ hi
    refine ⟨⟨Arrival.accept_regular hi, ?_⟩, ?_⟩
    · rintro j read input rfl
      rcases Arrival.accept_cases hi with ⟨_, _, _, -, -, h, -⟩ | ⟨h, -⟩ <;> cases h
    · rcases Arrival.accept_cases hi with ⟨_, _, _, -, -, -, rfl⟩ | ⟨-, ⟨_, _, -, rfl⟩ | ⟨_, rfl⟩ | ⟨_, rfl⟩ | rfl⟩
      all_goals first
        | trivial
        | rintro ws ⟨⟩
  act := by
    intro s n a p stmt p' st hw _ hp hown hn
    constructor
    · refine ⟨(Proc.next_does hn).regular, ?_⟩
      rintro j read input rfl
      obtain ⟨r, host, rfl, hpc, rfl⟩ := (Proc.next_does hn).openSession_of
      exact hown read (by rw [hpc]; rfl)
    · intro _
      cases p with
      | request r =>
        obtain ⟨pc, hr, rfl⟩ := Proc.next_request hn
        intro ws hws τ hτ
        refine le_trans ?_ (stmt.maxRecorded_le_exec cfg s.world _)
        rcases RequestPc.next_row hr hws with hrow | hrow
        · exact hown ws hrow τ hτ
        · exact hw.rows _ ws hrow τ hτ
      | run r => obtain ⟨_, _, -, rfl, -⟩ := Proc.next_run hn; trivial
      | call c => obtain ⟨_, -, rfl⟩ := Proc.next_call hn; trivial
      | reconcile r => obtain ⟨_, -, rfl, -⟩ := Proc.next_reconcile hn; trivial
      | gc g => obtain ⟨_, -, rfl⟩ := Proc.next_gc hn; trivial
  fresh _ _ _ _ := trivial
  ended _ _ := trivial
  env s e _ _ := ⟨e.stmt_regular, fun j read input h => by cases e <;> cases h⟩

/-! ## The claim about a slow request -/

/-- The VM session that the request found dead, while it reconciles the row. -/
def RequestPc.foundDead : RequestPc → Option VmSession
  | .lostClose ws _ | .lostUpdate ws _ => ws.currentSandboxSessionId
  | _ => none

/-- The workspace the request `n` works for and its VM session found dead. -/
def Sys.foundDead (s : Sys) (n : Pid) : Option (WsId × VmSession) := match s.procs n with
  | some (.request r) => r.pc.foundDead.map fun σ => (r.input.ws, σ)
  | _ => none

theorem Sys.foundDead_eq_some {s : Sys} {n : Pid} (h : s.foundDead n = some (id, σ)) :
    ∃ r, s.procs n = some (.request r) ∧ r.pc.foundDead = some σ ∧ r.input.ws = id := by
  unfold foundDead at h
  split at h
  · rename_i r hr
    obtain ⟨τ, hτ, he⟩ := Option.map_eq_some_iff.1 h
    cases he
    exact ⟨r, hr, hτ, rfl⟩
  · cases h

/-- From `w` to `w'` the row is not moved to `stopped` and keeps its hosts while it names a VM session
later than `σ`, and no open editor session of such a VM session ends. -/
structure LaterUntouched (σ : VmSession) (id : WsId) (w w' : World) : Prop where
  row : ∀ row row', w.rows id = some row → w'.rows id = some row' → (∃ τ ∈ row.currentSandboxSessionId, σ < τ) →
    row'.state = row.state ∧ row'.currentWsHost = row.currentWsHost ∧
      row'.currentHealthHost = row.currentHealthHost ∧ row'.currentSlotHosts = row.currentSlotHosts
  session : ∀ x ∈ w.sessions, x.endedAt = none → (∃ τ ∈ x.sandboxSessionId, σ < τ) → x ∈ w'.sessions

/-- No VM session later than the one found dead has been recorded on the row when the request ends its
editor sessions, nor, if the row is running, when the request moves it to `stopped`. -/
def LossIsFresh (s : Sys) (e : SysEvent) : Prop := match s.acting e with
  | some (.request ⟨r, .lostClose ws _⟩) =>
    ∀ σ ∈ ws.currentSandboxSessionId, s.world.hist.maxRecorded r.ws ≤ σ
  | some (.request ⟨r, .lostUpdate ws _⟩) =>
    (s.world.rows r.ws).any (fun row => decide (row.state = .running)) = true →
      ∀ σ ∈ ws.currentSandboxSessionId, s.world.hist.maxRecorded r.ws ≤ σ
  | _ => True

instance (s : Sys) (e : SysEvent) : Decidable (LossIsFresh s e) := by
  unfold LossIsFresh
  generalize s.acting e = p
  rcases p with _ | _ | _ | ⟨_, _ | _⟩ | _ <;> infer_instance

theorem closeOpenSession_mem {x : Session} {reason : String} (hx : x ∈ w.sessions) (hne : x.workspaceId ≠ id) :
    x ∈ (closeOpenSession id reason w).sessions :=
  List.mem_map.2 ⟨x, hx, by simp [hne]⟩

theorem Workspace.markLost_of_not_running {now : Int} {reason : String} {row : Workspace} (h : row.state ≠ .running) :
    row.markLost now reason = row := if_neg h

/-- A fresh loss touches nothing of a later VM session. -/
theorem stale_loss_harmless {s s' : Sys} {n : Pid} {a : Answer} (h : (lifecycle cfg).Reach LossIsFresh s)
    (hg : LossIsFresh s (.act n a)) (hstep : (lifecycle cfg).step s (.act n a) = some s')
    (hd : s.foundDead n = some (id, σ)) : LaterUntouched σ id s.world s'.world := by
  have hrec := ((recorded_outline cfg LossIsFresh).outline.holds h).whole
  obtain ⟨r, hp, hσ, rfl⟩ := Sys.foundDead_eq_some hd
  obtain ⟨stmt, p', starts, hn, hw⟩ := lifecycle_act hp hstep
  obtain ⟨pc, hr, -⟩ := Proc.next_request hn
  obtain ⟨input, pc₀⟩ := r
  simp only [LossIsFresh, Sys.acting, hp] at hg
  rw [hw]
  cases RequestPc.performs_of_next hr with
  | call hc => cases hσ
  | openSession => cases hσ
  | quiet =>
    refine ⟨fun row row' hrow hrow' _ => ?_, fun x hx _ _ => hx⟩
    cases hrow.symm.trans hrow'
    exact ⟨rfl, rfl, rfl, rfl⟩
  | lostClose =>
    have hmax := hg σ hσ
    refine ⟨fun row row' hrow hrow' _ => ?_, ?_⟩
    · cases hrow.symm.trans hrow'
      exact ⟨rfl, rfl, rfl, rfl⟩
    · rintro x hx - ⟨τ, hτ, hlt⟩
      refine closeOpenSession_mem hx fun hws => ?_
      have hle := hrec.sessions x hx τ hτ
      rw [hws] at hle
      exact absurd (hle.trans hmax) (Nat.not_le_of_lt hlt)
  | lostUpdate =>
    refine ⟨?_, fun x hx _ _ => hx⟩
    rintro row row' hrow hrow' ⟨τ, hτ, hlt⟩
    have hle := hrec.rows _ row hrow τ hτ
    rw [Stmt.exec_rows cfg _ _ _ (by rintro _ _ ⟨⟩), hrow] at hrow'
    cases hrow'
    by_cases hrun : row.state = .running
    · have hmax := hg (by simp [hrow, hrun]) σ hσ
      exact absurd (hle.trans hmax) (Nat.not_le_of_lt hlt)
    · simp [Stmt.onRow, Workspace.markLost_of_not_running hrun]

/-- A workspace whose VM dies, and a request to redial that finds it dead. -/
def findsDead : List SysEvent :=
  createsWorkspace 0 0 1 7 ++ [.env (.endSession (newSandboxName 0 1) .stopped)] ++
    [.arrive 4 (.connect 0 .reconnect 9 none)] ++ steps 4 2 ++
    [.act 4 (.release oldRelease), .act 4 (.sandboxStatus (some (some .stopped)))]

/-- The request that found the first VM session dead moves the row to `stopped` with no other one there. -/
theorem stale_loss_harmless_first : ∃ s s' : Sys, s.foundDead 4 = some (0, 1) ∧
    (s'.world.rows 0).any (fun row => decide (row.state = .stopped)) = true ∧ LaterUntouched 1 0 s.world s'.world := by
  obtain ⟨s, hr, hd, hg, hs⟩ := exists_reach_of_execs (G := LossIsFresh)
    (fun s : Sys => s.foundDead 4 = some (0, 1) ∧ LossIsFresh s (.act 4 .ok) ∧
      ((lifecycle deployment).step s (.act 4 .ok)).any (fun s' =>
        (s'.world.rows 0).any fun row => decide (row.state = .stopped)) = true)
    (findsDead ++ steps 4 1) (lifecycle_init deployment 0) (by decide) (by decide)
  obtain ⟨s', hs', hstopped⟩ := (Option.any_eq_true _ _).1 hs
  exact ⟨s, s', hd, hstopped, stale_loss_harmless hr hg hs' hd⟩

/-- While the first request pauses, another one finds the VM dead too, resumes the workspace and opens an
editor session: the first then stops the row that names the second VM session. -/
theorem stale_loss_hits_later_session : ¬ ∀ (cfg : Config) (s s' : Sys) (n : Pid) (a : Answer) (id : WsId) (σ : VmSession),
    (lifecycle cfg).Reach System.free s → (lifecycle cfg).step s (.act n a) = some s' →
      s.foundDead n = some (id, σ) → LaterUntouched σ id s.world s'.world := by
  intro h
  obtain ⟨s, hr, hd, hrun, hs⟩ := exists_reach_of_exec
    (fun s : Sys => s.foundDead 4 = some (0, 1) ∧
      (s.world.rows 0).any (fun row => decide (row.state = .running ∧ row.currentSandboxSessionId = some 2)) = true ∧
      ((lifecycle deployment).step s (.act 4 .ok)).any (fun s' =>
        (s'.world.rows 0).any fun row => decide (row.state = .stopped)) = true)
    (findsDead ++ [.arrive 5 (.connect 0 .resume 9 none)] ++ steps 5 2 ++
      [.act 5 (.release oldRelease), .act 5 (.sandboxStatus (some (some .stopped)))] ++ steps 5 4 ++ startsRun 5 6 ++
      steps 6 3 ++ [.act 6 (.cmd 6)] ++ steps 6 1 ++ [.env (.boot (newSandboxName 0 1) 7), .act 6 ready] ++ steps 6 2 ++
      steps 5 1 ++ [.act 5 (.sandboxStatus (some (some .running))), .act 5 ready] ++ steps 5 1 ++ steps 4 1)
    (lifecycle_init deployment 0) (by decide)
  obtain ⟨s', hs', hstopped⟩ := (Option.any_eq_true _ _).1 hs
  obtain ⟨row, hrow, hrun⟩ := (Option.any_eq_true _ _).1 hrun
  obtain ⟨row', hrow', hstopped⟩ := (Option.any_eq_true _ _).1 hstopped
  obtain ⟨hstate, hnew⟩ := of_decide_eq_true hrun
  have hkept := ((h deployment s s' 4 .ok 0 1 hr hs' hd).row row row' hrow hrow' ⟨2, by simp [hnew], by decide⟩).1
  rw [hstate, of_decide_eq_true hstopped] at hkept
  cases hkept

end Zedspaces.Lifecycle
