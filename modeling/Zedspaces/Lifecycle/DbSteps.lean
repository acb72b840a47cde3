/-
The statements of `workflows/steps/db-steps.ts`, `lib/connect.ts`, `lib/lifecycle.ts`,
`lib/workspace-budget.ts` and the sweep's `reconcileRuns` on the database: one function for each
statement or transaction, so that anything else may happen between two of them. A function that reads
returns what it read; a function that writes returns the world after the write.
-/
import Zedspaces.Lifecycle.Schema

namespace Zedspaces.Lifecycle

/-! ## Loading and patching a row -/

/-- `stepLoadWorkspace`: the row, or `none` (`workspace_missing`) when it is gone. -/
def stepLoadWorkspace (id : WsId) (w : World) : Option Workspace := w.liveRow id

/-- Columns a lifecycle step may patch alongside the state transition; `none` leaves a column as
it is, `some none` sets it to null. -/
structure WorkspacePatch where
  currentWsHost : Option (Option Host)
  currentSlotHosts : Option (Option (List (Nat × Host)))
  currentHealthHost : Option (Option Host)
  currentSandboxSessionId : Option (Option VmSession)
  sessionStartedAt : Option (Option Int)
  sandboxExpiresAt : Option (Option Int)
  supervisorCmdId : Option (Option CmdId)
  restoreKind : Option RestoreKind
  restoreBlobPathname : Option (Option BlobPath)
  previousSandboxName : Option (Option SandboxName)
  lastStoppedAt : Option (Option Int)
  retentionUntil : Option (Option Int)
  retentionWarnedAt : Option (Option Int)

/-- No column. -/
def WorkspacePatch.none : WorkspacePatch :=
  ⟨.none, .none, .none, .none, .none, .none, .none, .none, .none, .none, .none, .none, .none⟩

/-- The patch of a create run that owns its archive. -/
def WorkspacePatch.clearArchive : WorkspacePatch := { WorkspacePatch.none with restoreBlobPathname := some .none }

/-- The patch of a rebuild that has deleted the old generation. -/
def WorkspacePatch.clearPointers : WorkspacePatch :=
  { WorkspacePatch.none with previousSandboxName := some .none, restoreBlobPathname := some .none }

/-- The row `stepSetState` leaves. -/
def Workspace.setState (now : Int) (state : WorkspaceState) (reason : Option (Option String)) (patch : WorkspacePatch)
    (row : Workspace) : Workspace :=
  { row with
    state
    stateReason := reason.getD row.stateReason
    currentWsHost := patch.currentWsHost.getD row.currentWsHost
    currentSlotHosts := patch.currentSlotHosts.getD row.currentSlotHosts
    currentHealthHost := patch.currentHealthHost.getD row.currentHealthHost
    currentSandboxSessionId := patch.currentSandboxSessionId.getD row.currentSandboxSessionId
    sessionStartedAt := patch.sessionStartedAt.getD row.sessionStartedAt
    sandboxExpiresAt := patch.sandboxExpiresAt.getD row.sandboxExpiresAt
    supervisorCmdId := patch.supervisorCmdId.getD row.supervisorCmdId
    restoreKind := patch.restoreKind.getD row.restoreKind
    restoreBlobPathname := patch.restoreBlobPathname.getD row.restoreBlobPathname
    previousSandboxName := patch.previousSandboxName.getD row.previousSandboxName
    lastStoppedAt := patch.lastStoppedAt.getD row.lastStoppedAt
    retentionUntil := patch.retentionUntil.getD row.retentionUntil
    retentionWarnedAt := patch.retentionWarnedAt.getD row.retentionWarnedAt
    updatedAt := now }

/-- Writes a workspace's state, its `state_reason` (when given) and a column patch. -/
def stepSetState (id : WsId) (state : WorkspaceState) (reason : Option (Option String)) (patch : WorkspacePatch)
    (w : World) : World := w.updateRow id (.setState w.now state reason patch)

/-- How a lifecycle run ended. -/
inductive RunOutcome where
  | ok
  | failed (error : String) (state : Option WorkspaceState)

/-- The row `stepFinishRun` leaves: no `workflow_run_id` on both paths; on failure the row also takes the
error state and reason. -/
def Workspace.finishRun (now : Int) (outcome : RunOutcome) (row : Workspace) : Workspace :=
  let row := { row with workflowRunId := none, workflowRunStartedAt := none, updatedAt := now }
  match outcome with
  | .ok => row
  | .failed error state => { row with
      state := state.getD .error
      stateReason := some (String.ofList (error.toList.take 500)) }

def stepFinishRun (id : WsId) (outcome : RunOutcome) (w : World) : World := w.updateRow id (.finishRun w.now outcome)

/-! ## Creating and recording a VM session -/

/-- `stepPickImage`. -/
def stepPickImage (id : WsId) (w : World) : Option String := (w.rows id).map (·.release.imageRef)

/-- What of `CreateSandboxInput` the lifecycle depends on. -/
structure CreateSandboxInput where
  name : SandboxName
  timeoutMs : Int
  image : String

/-- The full `Sandbox.getOrCreate` argument for a workspace generation. -/
def stepBuildCreateInput (cfg : Config) (id : WsId) (image : String) (w : World) : Option CreateSandboxInput :=
  (w.rows id).map fun row => ⟨row.sandboxName, cfg.sessionTimeoutMs, image⟩

/-- Hosts and identifiers a freshly created or resumed sandbox session exposes. -/
structure SandboxSessionHosts where
  rpcHost : Host
  healthHost : Host
  slotHosts : List (Nat × Host)
  sessionId : VmSession
  expiresAt : Option Int

/-- The row `stepRecordSandboxSession` leaves. -/
def Workspace.recordSandboxSession (now : Int) (state : WorkspaceState) (reason : Option String)
    (hosts : SandboxSessionHosts) (restoreKind : Option RestoreKind) (supervisorCmdId : Option (Option CmdId))
    (row : Workspace) : Workspace :=
  { row with
    state
    stateReason := reason
    currentWsHost := some hosts.rpcHost
    currentHealthHost := some hosts.healthHost
    currentSlotHosts := some hosts.slotHosts
    currentSandboxSessionId := some hosts.sessionId
    sessionStartedAt := some now
    lastActiveAt := now
    sandboxExpiresAt := hosts.expiresAt
    restoreKind := restoreKind.getD row.restoreKind
    supervisorCmdId := supervisorCmdId.getD row.supervisorCmdId
    updatedAt := now }

/-- Records a freshly started VM session on the workspace row. `restoreKind` and `supervisorCmdId` are the
`extra` patch. -/
def stepRecordSandboxSession (id : WsId) (state : WorkspaceState) (reason : Option String)
    (hosts : SandboxSessionHosts) (restoreKind : Option RestoreKind) (supervisorCmdId : Option (Option CmdId))
    (w : World) : World :=
  let w' := w.updateRow id (.recordSandboxSession w.now state reason hosts restoreKind supervisorCmdId)
  { w' with hist := { w'.hist with
      maxRecorded := Function.update w.hist.maxRecorded id (max (w.hist.maxRecorded id) hosts.sessionId) } }

/-! ## Stopping -/

/-- The row `stepMarkStopped` leaves. -/
def Workspace.markStopped (cfg : Config) (now : Int) (reason : String) (state : WorkspaceState)
    (snapshotSizeBytes : Option (Option Nat)) (row : Workspace) : Workspace :=
  { row with
    state
    stateReason := some reason
    lastStoppedAt := some now
    retentionUntil := some (now + cfg.retentionDays * dayMs)
    retentionWarnedAt := none
    currentWsHost := none
    currentSlotHosts := none
    currentHealthHost := none
    supervisorCmdId := none
    sandboxExpiresAt := none
    snapshotSizeBytes := snapshotSizeBytes.getD row.snapshotSizeBytes
    updatedAt := now }

/-- Moves a workspace to `stopped` (or `rebuilding`), clearing every per-session column and
recomputing the retention window. -/
def stepMarkStopped (cfg : Config) (id : WsId) (reason : String) (state : WorkspaceState)
    (snapshotSizeBytes : Option (Option Nat)) (w : World) : World :=
  let w' := w.updateRow id (.markStopped cfg w.now reason state snapshotSizeBytes)
  { w' with hist := { w'.hist with
      warnStampedAt := Function.update w.hist.warnStampedAt id none
      lostStop := Function.update w.hist.lostStop id false } }

/-- Marks the open sessions of a workspace closed. -/
def closeOpenSession (id : WsId) (endReason : String) (w : World) : World :=
  { w with sessions := w.sessions.map fun s =>
      if s.workspaceId = id ∧ s.endedAt = none then { s with endedAt := some w.now, endReason := some endReason }
      else s }

def stepRecordSessionEnd (id : WsId) (endReason : String) (w : World) : World := closeOpenSession id endReason w

/-- The row `markWorkspaceLost` leaves: a `running` row becomes `stopped` with no live hosts. -/
def Workspace.markLost (now : Int) (reason : String) (row : Workspace) : Workspace :=
  if row.state = .running then { row with
    state := .stopped
    stateReason := some ("lost:" ++ reason)
    lastStoppedAt := some now
    currentWsHost := none
    currentSlotHosts := none
    currentHealthHost := none
    supervisorCmdId := none
    sandboxExpiresAt := none
    updatedAt := now }
  else row

/-- The second statement of `markWorkspaceLost`; the first is `closeOpenSession id "sandbox_lost"`. -/
def markWorkspaceLost (id : WsId) (reason : String) (w : World) : World :=
  let lost := (w.rows id).any (fun row => decide (row.state = .running)) || w.hist.lostStop id
  let w' := w.updateRow id (.markLost w.now reason)
  { w' with hist := { w'.hist with lostStop := Function.update w.hist.lostStop id lost } }

/-! ## Rebuilding -/

/-- Retarget a failed generation before retrying its create from the preserved archive. -/
def Workspace.setRelease (now : Int) (release : EditorRelease) (row : Workspace) : Workspace :=
  { row with release, updatedAt := now }

def stepSetRelease (id : WsId) (release : EditorRelease) (w : World) : World := w.updateRow id (.setRelease w.now release)

/-- The read of `stepBumpGeneration`: the row to bump, or `none` when it throws, because the row is
gone or a bump is still pending. -/
def stepBumpGenerationRead (id : WsId) (w : World) : Option Workspace :=
  (w.rows id).filter fun row => row.previousSandboxName.isNone

/-- The row `stepBumpGeneration` leaves, from the row `workspace` it read. -/
def Workspace.bumpGeneration (id : WsId) (now : Int) (workspace : Workspace) (blobPathname : BlobPath)
    (release : EditorRelease) (row : Workspace) : Workspace :=
  let generation := workspace.sandboxGeneration + 1
  let name := newSandboxName id generation
  { row with
    sandboxGeneration := generation
    sandboxName := name
    audience := name
    previousSandboxName := some workspace.sandboxName
    restoreKind := .tarball
    restoreBlobPathname := some blobPathname
    release
    supervisorCmdId := none
    currentWsHost := none
    currentSlotHosts := none
    currentHealthHost := none
    currentSandboxSessionId := none
    sandboxExpiresAt := none
    snapshotSizeBytes := none
    updatedAt := now }

/-- The write of `stepBumpGeneration`. -/
def stepBumpGenerationWrite (id : WsId) (workspace : Workspace) (blobPathname : BlobPath) (release : EditorRelease)
    (w : World) : World := w.updateRow id (.bumpGeneration id w.now workspace blobPathname release)

/-- The row `stepPurgeWorkspaceRows` leaves. -/
def Workspace.purge (now : Int) (row : Workspace) : Workspace :=
  { row with
    deletedAt := some now
    state := .deleting
    stateReason := none
    currentWsHost := none
    currentSlotHosts := none
    currentHealthHost := none
    supervisorCmdId := none
    sandboxTokenHash := none
    snapshotSizeBytes := none
    updatedAt := now }

/-- The last statement of `stepPurgeWorkspaceRows`, which soft-deletes the row; the sessions are
closed by the statement before it. -/
def stepPurgeWorkspaceRows (id : WsId) (w : World) : World := w.updateRow id (.purge w.now)

/-! ## Garbage collection -/

/-- The first read of `stepGcCandidates`: is the row an expired workspace? -/
def Workspace.expired (now : Int) (row : Workspace) : Bool :=
  decide (row.state = .stopped) && row.deletedAt.isNone && row.retentionUntil.any (fun u => decide (u < now)) &&
    row.retentionWarnedAt.isSome

/-- The ids of the rows that satisfy `p`, in insertion order. -/
def World.select (w : World) (p : Workspace → Bool) : List WsId := w.ids.filter fun id => (w.rows id).any p

/-- The `expiredWorkspaces` of `stepGcCandidates`. -/
def expiredWorkspaces (now : Int) (w : World) : List WsId := w.select (Workspace.expired now)

/-- The `knownSandboxNames` of `stepGcCandidates`. -/
def knownSandboxNames (w : World) : List SandboxName :=
  w.ids.flatMap fun id => match w.liveRow id with
    | some row => row.sandboxName :: row.previousSandboxName.toList
    | none => []

/-- The rows `stepWarnRetention` selects: not warned, and the deadline less than a week ahead. -/
def Workspace.dueWarning (now : Int) (row : Workspace) : Bool :=
  row.deletedAt.isNone && row.retentionWarnedAt.isNone &&
    row.retentionUntil.any (fun u => decide (u < now + 7 * dayMs))

/-- The row `stepWarnRetention` leaves. -/
def Workspace.warn (now : Int) (row : Workspace) : Workspace := { row with retentionWarnedAt := some now }

/-- The update of `stepWarnRetention` on the rows it selected. -/
def stepWarnRetention (now : Int) (selected : List WsId) (w : World) : World :=
  { w with
    rows := fun id => (w.rows id).map fun row => if id ∈ selected then row.warn now else row
    hist := { w.hist with
      warnStampedAt := fun id => if id ∈ selected then some w.now else w.hist.warnStampedAt id } }

/-- Closes the sessions `stepCloseStaleSessions` selected. -/
def stepCloseStaleSessions (now : Int) (selected : List Nat) (w : World) : World :=
  { w with sessions := w.sessions.map fun s =>
      if s.id ∈ selected then { s with endedAt := some now, endReason := some "stale" } else s }

/-- The sessions still open after 25 h whose workspace is no longer running. -/
def staleSessions (now : Int) (w : World) : List Nat :=
  (w.sessions.filter fun s => s.endedAt.isNone && decide (s.startedAt < now - 25 * 3600000) &&
    (w.rows s.workspaceId).any fun row => decide (row.state ≠ .running)).map (·.id)

/-! ## Admission -/

def ACTIVE_WORKSPACE_STATES : List WorkspaceState := [.creating, .running, .stopping, .rebuilding]

/-- The count of `assertWorkspaceCapacity`. -/
def activeWorkspaces (excludeId : Option WsId) (w : World) : Nat :=
  (w.ids.filter fun id => decide (some id ≠ excludeId) && (w.liveRow id).any fun row =>
    decide (row.state ∈ ACTIVE_WORKSPACE_STATES) || row.workflowRunId.isSome).length

/-- `assertWorkspaceCapacity` passes. -/
def hasCapacity (cfg : Config) (excludeId : Option WsId) (w : World) : Bool :=
  decide (activeWorkspaces excludeId w < cfg.maxRunningWorkspaces)

/-- The row after `workflow_run_id` is set. -/
def Workspace.setRunId (now : Int) (ref : Option RunRef) (row : Workspace) : Workspace :=
  { row with workflowRunId := ref, workflowRunStartedAt := ref.map fun _ => now }

/-- The update of `startLifecycle`'s admission transaction. -/
def admitRun (id : WsId) (call : CallId) (w : World) : World :=
  let w' := w.updateRow id (.setRunId w.now (some (.admitting call)))
  { w' with hist := { w'.hist with lastAdmitted := Function.update w.hist.lastAdmitted id (some call) } }

/-- The row after `workflow_run_id` is set where it still is `old`. -/
def Workspace.replaceRunId (now : Int) (old : RunRef) (ref : Option RunRef) (row : Workspace) : Workspace :=
  if row.workflowRunId = some old then row.setRunId now ref else row

/-- `startLifecycle` recording the run. -/
def recordRun (id : WsId) (call : CallId) (run : RunId) (w : World) : World :=
  w.updateRow id (.replaceRunId w.now (.admitting call) (some (.run run)))

/-- `startLifecycle` taking the admission back. -/
def takeBack (id : WsId) (call : CallId) (w : World) : World :=
  w.updateRow id (.replaceRunId w.now (.admitting call) none)

/-- The row `reconcileRuns` leaves when it releases the run `ref`; `error` is the status of a run that did
not complete. -/
def Workspace.releaseRun (now : Int) (ref : RunRef) (error : Option String) (row : Workspace) : Workspace :=
  if row.workflowRunId = some ref then
    let row := { row.setRunId now none with updatedAt := now }
    match error with
    | some status => { row with state := .error, stateReason := some ("run_" ++ status) }
    | none => row
  else row

def releaseRun (id : WsId) (ref : RunRef) (error : Option String) (w : World) : World :=
  w.updateRow id (.releaseRun w.now ref error)

/-! ## Editor sessions -/

structure OpenSessionInput where
  tabId : Nat
  host : Host

/-- The session `insertSession` adds. -/
def newSession (id : WsId) (workspace : Workspace) (input : OpenSessionInput) (w : World) : Session :=
  ⟨w.sessions.length, id, workspace.sandboxGeneration, workspace.currentSandboxSessionId, input.tabId, input.host,
    w.now, none, none⟩

/-- The transaction of `arbitrateSession`: the tab's open session is reused when it is of the same
generation, otherwise it ends and a new one is inserted. `workspace` is the row the request read. -/
def arbitrateSession (id : WsId) (workspace : Workspace) (input : OpenSessionInput) (w : World) : World :=
  let name := newSandboxName id workspace.sandboxGeneration
  let sessions := match w.sessions.find? fun s =>
      decide (s.workspaceId = id ∧ s.holderTabId = input.tabId ∧ s.endedAt = none) with
    | some op =>
      if op.sandboxGeneration = workspace.sandboxGeneration then
        w.sessions.map fun s => if s.id = op.id then
          { s with wsHost := input.host, sandboxSessionId := workspace.currentSandboxSessionId } else s
      else
        (w.sessions.map fun s => if s.id = op.id then
          { s with endedAt := some w.now, endReason := some "generation_changed" } else s) ++ [newSession id workspace input w]
    | none => w.sessions ++ [newSession id workspace input w]
  let opened := if w.hist.everHealthy name then
    Function.update w.hist.opened name (w.hist.opened name + 1) else w.hist.opened
  { w with sessions, hist := { w.hist with opened } }

end Zedspaces.Lifecycle
