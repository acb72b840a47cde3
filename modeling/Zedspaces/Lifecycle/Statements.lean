/-
Every change to the world, as one syntax. A process of the control plane takes its steps by choosing
a statement from what it has read; the platform, the supervisors and the clock act by statements of
their own. What a statement does does not depend on who chose it, so a property of the world alone is
checked once for each statement, and only what the choice relied on is left to the processes.
-/
import Zedspaces.Lifecycle.SandboxSteps

namespace Zedspaces.Lifecycle

open Lib

/-- One atomic change: a statement or transaction on the database, one call to the platform or the
blob store, or something the platform does by itself. -/
inductive Stmt where
  | nothing
  -- the key-value store
  | lock (id : WsId) (call : CallId)
  | unlock (id : WsId) (call : CallId)
  -- `workspaces` and `sessions`
  | insertWorkspace (id : WsId) (release : EditorRelease) (idleMinutes : Nat)
  | setState (id : WsId) (state : WorkspaceState) (reason : Option (Option String)) (patch : WorkspacePatch)
  | finishRun (id : WsId) (outcome : RunOutcome)
  | recordSandboxSession (id : WsId) (state : WorkspaceState) (reason : Option String) (hosts : SandboxSessionHosts)
      (restoreKind : Option RestoreKind) (supervisorCmdId : Option (Option CmdId))
  | noteBootPhase (id : WsId) (probe : Option HealthProbe)
  | markStopped (id : WsId) (reason : String) (state : WorkspaceState) (snapshotSizeBytes : Option Nat)
  | recordSessionEnd (id : WsId) (reason : String)
  | markLost (id : WsId) (reason : String)
  | setRelease (id : WsId) (release : EditorRelease)
  | bumpGeneration (id : WsId) (read : Workspace) (blobPathname : BlobPath) (release : EditorRelease)
  | purgeRows (id : WsId)
  | admitRun (id : WsId) (call : CallId)
  | recordRun (id : WsId) (call : CallId) (run : RunId)
  | takeBack (id : WsId) (call : CallId)
  | releaseRun (id : WsId) (ref : RunRef) (error : Option String)
  | openSession (id : WsId) (read : Workspace) (input : OpenSessionInput)
  | warnRetention (now : Int) (selected : List WsId)
  | closeStaleSessions (now : Int) (selected : List Nat)
  -- the platform and the blob store
  | getOrCreate (name : SandboxName)
  | resume (name : SandboxName)
  | startSupervisor (id : WsId) (name : SandboxName) (cmd : CmdId)
  | stopSandbox (name : SandboxName)
  | deleteSandbox (name : SandboxName) (how : Deletion)
  | startArchive (name : SandboxName)
  | finishArchive (name : SandboxName)
  | deleteBlob (pathname : BlobPath)
  -- by itself
  | tick (ms : Nat)
  | endSession (name : SandboxName) (status : EndedStatus)
  | boot (name : SandboxName) (checkout : Files)
  | edit (name : SandboxName) (files : Files)

/-! ## The key-value store -/

/-- `LOCK_MS` of `startLifecycle`. -/
def lockTtlMs : Int := 30000

/-- The lock attempt of `withLock`: nothing changes when another holder has the lock. -/
def World.lock (id : WsId) (call : CallId) (w : World) : World :=
  { w with locks := Function.update w.locks id ((Lease.acquire w.now lockTtlMs call (w.locks id)).or (w.locks id)) }

/-- The `compareDelete` of `withLock`. -/
def World.unlock (id : WsId) (call : CallId) (w : World) : World :=
  { w with locks := Function.update w.locks id (Lease.release call (w.locks id)) }

/-! ## The remaining statements -/

/-- The row `createPublicWorkspace` inserts. -/
def newWorkspace (id : WsId) (release : EditorRelease) (idleMinutes : Nat) (now : Int) : Workspace :=
  let name := newSandboxName id 1
  { sandboxName := name, previousSandboxName := none, sandboxGeneration := 1, release
    restoreKind := .fresh, restoreBlobPathname := none
    state := .creating, stateReason := some "boot:manifest", audience := name
    sandboxTokenHash := none, sandboxTokenGeneration := 0, supervisorCmdId := none
    currentWsHost := none, currentSlotHosts := none, currentHealthHost := none
    currentSandboxSessionId := none, sessionStartedAt := none, sandboxExpiresAt := none
    snapshotSizeBytes := none, workflowRunId := none, workflowRunStartedAt := none
    lastActiveAt := now, idleMinutes, retentionUntil := none, retentionWarnedAt := none
    updatedAt := now, lastStoppedAt := none, deletedAt := none }

/-- The insert of `createPublicWorkspace`. An id is random, so it is new. -/
def insertWorkspace (id : WsId) (release : EditorRelease) (idleMinutes : Nat) (w : World) : World :=
  { w with
    ids := w.ids ++ [id]
    rows := Function.update w.rows id (some (newWorkspace id release idleMinutes w.now)) }

/-- The user edits the project of a sandbox whose VM is running. -/
def edit (name : SandboxName) (files : Files) (w : World) : World :=
  { w with sandboxes := Function.update w.sandboxes name ((w.sandboxes name).map fun sb =>
      if sb.status = .running ∧ sb.cloneDone then { sb with files := some files } else sb) }

/-! ## Execution -/

/-- The world after the statement. -/
def Stmt.exec (cfg : Config) : Stmt → World → World
  | .nothing, w => w
  | .lock id call, w => w.lock id call
  | .unlock id call, w => w.unlock id call
  | .insertWorkspace id release idleMinutes, w => Lifecycle.insertWorkspace id release idleMinutes w
  | .setState id state reason patch, w => stepSetState id state reason patch w
  | .finishRun id outcome, w => stepFinishRun id outcome w
  | .recordSandboxSession id state reason hosts kind cmd, w => stepRecordSandboxSession id state reason hosts kind cmd w
  | .noteBootPhase id probe, w => Lifecycle.noteBootPhase id probe w
  | .markStopped id reason state size, w => stepMarkStopped cfg id reason state (some size) w
  | .recordSessionEnd id reason, w => stepRecordSessionEnd id reason w
  | .markLost id reason, w => markWorkspaceLost id reason w
  | .setRelease id release, w => stepSetRelease id release w
  | .bumpGeneration id read blob release, w => stepBumpGenerationWrite id read blob release w
  | .purgeRows id, w => stepPurgeWorkspaceRows id w
  | .admitRun id call, w => Lifecycle.admitRun id call w
  | .recordRun id call run, w => Lifecycle.recordRun id call run w
  | .takeBack id call, w => Lifecycle.takeBack id call w
  | .releaseRun id ref error, w => Lifecycle.releaseRun id ref error w
  | .openSession id read input, w => arbitrateSession id read input w
  | .warnRetention now selected, w => stepWarnRetention now selected w
  | .closeStaleSessions now selected, w => stepCloseStaleSessions now selected w
  | .getOrCreate name, w => w.getOrCreate cfg name
  | .resume name, w => w.resume cfg name
  | .startSupervisor id name cmd, w => Lifecycle.startSupervisor id name cmd w
  | .stopSandbox name, w => stepStopSandbox name w
  | .deleteSandbox name how, w => stepDeleteSandbox name how w
  | .startArchive name, w => stepStartArchive cfg name w
  | .finishArchive name, w => stepFinishArchive cfg name w
  | .deleteBlob pathname, w => stepDeleteBlob pathname w
  | .tick ms, w => { w with now := w.now + ms }
  | .endSession name status, w => w.endSession name status
  | .boot name checkout, w => Lifecycle.boot name checkout w
  | .edit name files, w => Lifecycle.edit name files w

/-! ## One row -/

/-- What the statement makes of the row of `id`, in the world `w`. -/
def Stmt.onRow (cfg : Config) (w : World) (id : WsId) : Stmt → Workspace → Workspace
  | .setState j state reason patch, row => if j = id then row.setState w.now state reason patch else row
  | .finishRun j outcome, row => if j = id then row.finishRun w.now outcome else row
  | .recordSandboxSession j state reason hosts kind cmd, row =>
    if j = id then row.recordSandboxSession w.now state reason hosts kind cmd else row
  | .noteBootPhase j probe, row => if j = id then row.noteBootPhase w.now probe else row
  | .markStopped j reason state size, row => if j = id then row.markStopped cfg w.now reason state (some size) else row
  | .markLost j reason, row => if j = id then row.markLost w.now reason else row
  | .setRelease j release, row => if j = id then row.setRelease w.now release else row
  | .bumpGeneration j read blob release, row => 
    if j = id then Workspace.bumpGeneration j w.now read blob release row else row
  | .purgeRows j, row => if j = id then row.purge w.now else row
  | .admitRun j call, row => if j = id then row.setRunId w.now (some (.admitting call)) else row
  | .recordRun j call run, row => if j = id then row.replaceRunId w.now (.admitting call) (some (.run run)) else row
  | .takeBack j call, row => if j = id then row.replaceRunId w.now (.admitting call) none else row
  | .releaseRun j ref error, row => if j = id then row.releaseRun w.now ref error else row
  | .warnRetention now selected, row => if id ∈ selected then row.warn now else row
  | .startSupervisor j _ cmd, row => if j = id then row.startSupervisor w.now cmd else row
  | _, row => row

theorem World.updateRow_rows (w : World) (id j : WsId) (f : Workspace → Workspace) :
    (w.updateRow j f).rows id = (w.rows id).map fun row => if j = id then f row else row := by
  by_cases h : j = id
  · subst h; simp [updateRow]
  · simp [updateRow, h, Ne.symm h]

theorem Stmt.exec_insertWorkspace_rows (cfg : Config) (w : World) (id j : WsId) (release : EditorRelease) (idle : Nat) :
    ((Stmt.insertWorkspace j release idle).exec cfg w).rows id =
      if id = j then some (newWorkspace j release idle w.now) else w.rows id :=
  Function.update_apply ..

/-- A statement that inserts no row for `id` acts on the row of `id` alone. -/
theorem Stmt.exec_rows (cfg : Config) (stmt : Stmt) (w : World) (id : WsId)
    (h : ∀ release idle, stmt ≠ .insertWorkspace id release idle) :
    (stmt.exec cfg w).rows id = (w.rows id).map (stmt.onRow cfg w id) := by
  cases stmt with
  | insertWorkspace j release idle =>
    have hj : id ≠ j := by rintro rfl; exact h _ _ rfl
    rw [exec_insertWorkspace_rows, if_neg hj]
    exact (congrFun Option.map_id _).symm
  | deleteSandbox name how => cases how <;> exact (congrFun Option.map_id _).symm
  | warnRetention now selected => rfl
  | _ => first | exact (congrFun Option.map_id _).symm | exact World.updateRow_rows ..

/-- A row after a statement was there before, or has just been inserted. -/
theorem Stmt.exec_rows_cases {cfg : Config} {stmt : Stmt} {w : World} {id : WsId} {row' : Workspace}
    (hrow' : (stmt.exec cfg w).rows id = some row') :
    (∃ row, w.rows id = some row ∧ row' = stmt.onRow cfg w id row) ∨
      ∃ release idle, stmt = .insertWorkspace id release idle ∧ row' = newWorkspace id release idle w.now := by
  by_cases hins : ∀ release idle, stmt ≠ .insertWorkspace id release idle
  · rw [Stmt.exec_rows cfg stmt w id hins] at hrow'
    obtain ⟨row, hrow, he⟩ := Option.map_eq_some_iff.1 hrow'
    exact .inl ⟨row, hrow, he.symm⟩
  · simp only [not_forall, not_not] at hins
    obtain ⟨release, idle, rfl⟩ := hins
    rw [exec_insertWorkspace_rows, if_pos rfl, Option.some.injEq] at hrow'
    exact .inr ⟨release, idle, rfl, hrow'.symm⟩

/-! ## One sandbox -/

/-- What the statement makes of the sandbox `name`, in the world `w`. -/
def Stmt.onSandbox (cfg : Config) (w : World) (name : SandboxName) : Stmt → Option Sandbox → Option Sandbox
  | .getOrCreate other, sb =>
    if name = other then
      some (if sb.all (·.resumes) then (sb.getD .new).startSession cfg w.now w.nextVm else sb.getD .new)
    else sb
  | .resume other, sb | .finishArchive other, sb =>
    if name = other then sb.map fun sb => if sb.resumes then sb.startSession cfg w.now w.nextVm else sb else sb
  | .startArchive other, sb =>
    if name = other then sb.map fun sb =>
      { (if sb.resumes then sb.startSession cfg w.now w.nextVm else sb) with
        archiveTmp := some sb.files, archiveCovers := w.hist.opened name }
    else sb
  | .startSupervisor id other _, sb =>
    if name = other then sb.map fun sb =>
      { sb with supervisor := some (((w.rows id).map fun row => row.sandboxTokenGeneration + 1).getD 0) }
    else sb
  | .stopSandbox other, sb | .deleteSandbox other .onlyStopped, sb =>
    if name = other then sb.map (·.endSession .stopped) else sb
  | .endSession other status, sb => if name = other then sb.map (·.endSession status) else sb
  | .deleteSandbox other .deleted, sb => if name = other then none else sb
  | .boot other checkout, sb => if name = other then (w.booted name checkout).or sb else sb
  | .edit other files, sb =>
    if name = other then sb.map fun sb =>
      if sb.status = .running ∧ sb.cloneDone then { sb with files := some files } else sb
    else sb
  | _, sb => sb

/-- A statement acts on the sandbox `name` alone. -/
theorem Stmt.exec_onSandbox (cfg : Config) (stmt : Stmt) (w : World) (name : SandboxName) :
    (stmt.exec cfg w).sandboxes name = stmt.onSandbox cfg w name (w.sandboxes name) := by
  cases stmt with
  | deleteSandbox other how =>
    cases how with
    | nothing => rfl
    | deleted => simp only [exec, stepDeleteSandbox, World.deleteSandbox, onSandbox, Function.update_apply]
    | onlyStopped =>
      simp only [exec, stepDeleteSandbox, World.endSession, onSandbox, Function.update_apply]
      split
      · next h => subst h; rfl
      · rfl
  | startArchive other =>
    simp only [exec, stepStartArchive, World.resume, onSandbox, Function.update_apply]
    split
    · next h =>
      subst h
      cases w.sandboxes name with
      | none => rfl
      | some sb =>
        simp only [↓reduceIte, Option.map_some]
        split <;> rfl
    · rfl
  | getOrCreate other | resume other | finishArchive other | startSupervisor id other cmd | stopSandbox other
  | endSession other status | boot other checkout | edit other files =>
    simp only [exec, World.getOrCreate, World.resume, stepFinishArchive, Lifecycle.startSupervisor, stepStopSandbox,
      World.endSession, Lifecycle.boot, Lifecycle.edit, onSandbox, Function.update_apply]
    split
    · next h => subst h; rfl
    · rfl
  | _ => rfl

end Zedspaces.Lifecycle
