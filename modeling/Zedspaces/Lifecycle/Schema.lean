/-
The control plane's data as the lifecycle sees it: the columns of a `workspaces` row that the
lifecycle workflows, the connect route, the sweep and the garbage collection read or write, the
`sessions` rows, the sandboxes and archives of the platform, and the clock.

Names, ids and texts are abstract where only their identity matters. A sandbox name is the pair
`newSandboxName` encodes, so names of different workspaces or generations differ; the contents of a
project directory are an opaque value.
-/
import Zedspaces.Lib.Lease
import Mathlib.Logic.Function.Basic

namespace Zedspaces.Lifecycle

open Lib

/-! ## Identifiers -/

/-- A workspace id (`ws_…`). -/
abbrev WsId := Nat
/-- A process of the control plane: a workflow run, a `startLifecycle` call, a connect request, a
garbage-collection run or one row of a sweep. -/
abbrev Pid := Nat
/-- A workflow run id. -/
abbrev RunId := Pid
/-- A process that calls `startLifecycle`; stands for the lock token and the `admitting:` uuid that
the call draws. No process calls it twice. -/
abbrev CallId := Pid
/-- A VM session id; the platform numbers them in the order they start, from 1. -/
abbrev VmSession := Nat
/-- A command started inside a sandbox. -/
abbrev CmdId := Nat
/-- The pathname of a rebuild archive. -/
abbrev BlobPath := Nat
/-- The contents of a project directory. -/
abbrev Files := Nat

/-- `newSandboxName(workspaceId, generation)`, before it is spelled `sb-<env>-<id>-g<generation>`. -/
structure SandboxName where
  workspace : WsId
  generation : Nat
  deriving DecidableEq, Repr

def newSandboxName (workspaceId : WsId) (generation : Nat) : SandboxName := ⟨workspaceId, generation⟩

/-- The host the platform gives a declared port for one VM session. -/
structure Host where
  sandbox : SandboxName
  session : VmSession
  port : Nat
  deriving DecidableEq, Repr

/-- `workspaces.workflow_run_id`: an admission token (`admitting:<uuid>`) or a run id. -/
inductive RunRef where
  | admitting (call : CallId)
  | run (id : RunId)
  deriving DecidableEq, Repr

/-! ## Rows -/

inductive WorkspaceState where
  | creating | running | stopping | stopped | rebuilding | deleting | error
  deriving DecidableEq, Repr

inductive RestoreKind where
  | fresh | snapshot | tarball
  deriving DecidableEq, Repr

/-- Browser, server and sandbox image move together as one release. -/
structure EditorRelease where
  imageRef : String
  serverBuild : String
  clientBuild : String
  deriving DecidableEq, Repr

/-- The columns of a `workspaces` row that the lifecycle uses. Instants are Unix milliseconds. -/
structure Workspace where
  sandboxName : SandboxName
  previousSandboxName : Option SandboxName
  sandboxGeneration : Nat
  release : EditorRelease
  restoreKind : RestoreKind
  restoreBlobPathname : Option BlobPath
  state : WorkspaceState
  stateReason : Option String
  audience : SandboxName
  sandboxTokenHash : Option Nat
  sandboxTokenGeneration : Nat
  supervisorCmdId : Option CmdId
  currentWsHost : Option Host
  currentSlotHosts : Option (List (Nat × Host))
  currentHealthHost : Option Host
  currentSandboxSessionId : Option VmSession
  sessionStartedAt : Option Int
  sandboxExpiresAt : Option Int
  snapshotSizeBytes : Option Nat
  workflowRunId : Option RunRef
  workflowRunStartedAt : Option Int
  lastActiveAt : Int
  idleMinutes : Nat
  retentionUntil : Option Int
  retentionWarnedAt : Option Int
  updatedAt : Int
  lastStoppedAt : Option Int
  deletedAt : Option Int

/-- A `sessions` row: one editor session of one tab. -/
structure Session where
  id : Nat
  workspaceId : WsId
  sandboxGeneration : Nat
  sandboxSessionId : Option VmSession
  holderTabId : Nat
  wsHost : Host
  startedAt : Int
  endedAt : Option Int
  endReason : Option String

/-! ## The platform -/

inductive SandboxStatus where
  | pending | running | stopping | stopped | failed | aborted | snapshotting
  deriving DecidableEq, Repr

/-- The VM session of a sandbox with this status is over. -/
def SandboxStatus.ended : SandboxStatus → Bool
  | .stopped | .failed | .aborted => true
  | _ => false

/-- How a VM session can end. -/
abbrev EndedStatus := { status : SandboxStatus // status.ended = true }

abbrev EndedStatus.stopped : EndedStatus := ⟨.stopped, rfl⟩

/-- A persistent sandbox: its files outlive its VM sessions. `cloneDone` is the supervisor's
marker that the project directory is in place, `archiveTmp` the tarball a rebuild leaves in `/tmp`,
`supervisor` the bearer token the running `zs-agent` was started with, and `healthy` whether it
reports a running server. `archiveCovers` is history: how many of the editor sessions opened in this
sandbox came before the tarball in `/tmp` was started. -/
structure Sandbox where
  status : SandboxStatus
  currentSessionId : VmSession
  expiresAt : Option Int
  files : Option Files
  cloneDone : Bool
  archiveTmp : Option (Option Files)
  archiveCovers : Nat
  supervisor : Option Nat
  healthy : Bool

/-- What happened so far, where a property speaks of the past; no code reads it. -/
structure History where
  /-- when the last VM session of any sandbox of the workspace ended -/
  vmEndedAt : WsId → Option Int
  /-- when the `retention_warned_at` the row now carries was stamped -/
  warnStampedAt : WsId → Option Int
  /-- whether `markWorkspaceLost` was the last to move the row to `stopped` -/
  lostStop : WsId → Bool
  /-- the latest VM session recorded on the row, 0 before the first -/
  maxRecorded : WsId → VmSession
  /-- whether the sandbox has reported healthy -/
  everHealthy : SandboxName → Bool
  /-- editor sessions opened in the sandbox since it first reported healthy -/
  opened : SandboxName → Nat
  /-- of these, the ones that came before the start of its latest stored archive -/
  archived : SandboxName → Nat
  /-- the `startLifecycle` call that last admitted a run for the workspace -/
  lastAdmitted : WsId → Option CallId

/-- The database, the platform and the clock. `ids` lists the workspaces in insertion order, `locks`
is the part of the key-value store that holds the `lifecycle:<id>` locks. -/
structure World where
  now : Int
  locks : WsId → Option (Lease CallId)
  ids : List WsId
  rows : WsId → Option Workspace
  sessions : List Session
  sandboxes : SandboxName → Option Sandbox
  blobs : BlobPath → Option (Option Files)
  nextVm : VmSession
  nextBlob : BlobPath
  hist : History

/-- The deployment's configuration (`env.ts`). -/
structure Config where
  /-- `ZS_RETENTION_DAYS` -/
  retentionDays : Int
  /-- `ZS_MAX_RUNNING_WORKSPACES` -/
  maxRunningWorkspaces : Nat
  /-- `ZS_SESSION_TIMEOUT_MS` -/
  sessionTimeoutMs : Int
  /-- `ZS_RPC_PORT` -/
  rpcPort : Nat
  /-- `ZS_HEALTH_PORT` -/
  healthPort : Nat
  proxySlots : List Nat
  /-- client builds that are in both `ZS_EDITOR_BUNDLES` and `ZS_EDITOR_UPDATE_BUILDS` -/
  updaterBuilds : List String

/-- Milliseconds of a day. -/
def dayMs : Int := 86400000

/-! ## Statements -/

namespace World

/-- `UPDATE workspaces SET … WHERE id = …`: no row, no effect. -/
def updateRow (id : WsId) (f : Workspace → Workspace) (w : World) : World :=
  { w with rows := Function.update w.rows id ((w.rows id).map f) }

/-- The row of a workspace that has not been deleted. -/
def liveRow (id : WsId) (w : World) : Option Workspace :=
  (w.rows id).filter fun row => row.deletedAt.isNone

def setSandbox (name : SandboxName) (sb : Option Sandbox) (w : World) : World :=
  { w with sandboxes := Function.update w.sandboxes name sb }

/-- An undeleted row names the sandbox as its current or its previous generation. -/
def Names (w : World) (name : SandboxName) : Prop :=
  ∃ id row, w.rows id = some row ∧ row.deletedAt = none ∧
    (row.sandboxName = name ∨ row.previousSandboxName = some name)

theorem liveRow_eq_some {id : WsId} {w : World} {row : Workspace} :
    w.liveRow id = some row ↔ w.rows id = some row ∧ row.deletedAt = none := by
  simp [liveRow, Option.filter_eq_some_iff]

@[simp] theorem updateRow_rows_self (id : WsId) (f : Workspace → Workspace) (w : World) :
    (w.updateRow id f).rows id = (w.rows id).map f := by simp [updateRow]

theorem updateRow_rows_ne {id j : WsId} (h : j ≠ id) (f : Workspace → Workspace) (w : World) :
    (w.updateRow id f).rows j = w.rows j := by simp [updateRow, h]

@[simp] theorem setSandbox_rows (n : SandboxName) (sb : Option Sandbox) (w : World) :
    (w.setSandbox n sb).rows = w.rows := rfl

end World

/-- No row, no session, no sandbox. -/
def World.empty (now : Int) : World where
  now
  locks _ := none
  ids := []
  rows _ := none
  sessions := []
  sandboxes _ := none
  blobs _ := none
  nextVm := 1
  nextBlob := 0
  hist := ⟨fun _ => none, fun _ => none, fun _ => false, fun _ => 0, fun _ => false, fun _ => 0, fun _ => 0,
    fun _ => none⟩

end Zedspaces.Lifecycle
