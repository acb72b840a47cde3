/-
The processes that start, observe or repair lifecycle runs: a `startLifecycle` call, a request to
`POST /connect` with its `detectDeadSandbox` and `markWorkspaceLost`, one row of the sweep's
`reconcileRuns`, and a garbage-collection run. Each is cut into atomic steps as the workflows are. A
request makes its `startLifecycle` call inside its own steps.
-/
import Zedspaces.Lifecycle.Workflows

namespace Zedspaces.Lifecycle

open Lib

/-- A run a step starts: its id, workspace and input. -/
structure Starts where
  run : RunId
  ws : WsId
  input : Input

/-! ## `startLifecycle` -/

inductive CallPc where
  | lock
  | read
  /-- `isRunActive` of the id the row names -/
  | status (ref : RunRef) (state : WorkspaceState)
  /-- the admission transaction; `ref` is the id the row named -/
  | admission (ref : Option RunRef) (state : WorkspaceState)
  | start
  | takeBack
  | record (run : RunId)
  | unlock (result : Option RunId)
  | done (result : Option RunId)

/-- A call `startLifecycle(workspaceId, name, args)`. -/
structure StartCall where
  ws : WsId
  input : Input
  pc : CallPc

/-- The workflows that take a slot of the capacity. -/
def Input.activates : Input → Bool
  | .connectWorkspace _ | .createWorkspace _ | .rebuildWorkspace _ | .restartSession => true
  | .stopWorkspace _ _ | .deleteWorkspace _ => false

def StartCall.fresh (ws : WsId) (input : Input) : StartCall := ⟨ws, input, .lock⟩

/-- The position, the statement performed on the way to it, and the run started. -/
def CallPc.next (cfg : Config) (me : CallId) (id : WsId) (input : Input) :
    CallPc → Answer → World → Option (Stmt × CallPc × Option Starts)
  | .lock, .ok, w => match Lease.acquire w.now lockTtlMs me (w.locks id) with
    | some _ => some (.lock id me, .read, none)
    | none => some (.nothing, .done none, none)
  | .lock, .throws _, _ => some (.nothing, .done none, none)
  | .read, .ok, w => match w.rows id with
    | some row => match row.workflowRunId with
      | some ref => some (.nothing, .status ref row.state, none)
      | none => some (.nothing, .admission none row.state, none)
    | none => some (.nothing, .unlock none, none)
  -- an admission in progress is active without asking the run store
  | .status (.admitting _) _, .ok, _ => some (.nothing, .unlock none, none)
  | .status (.run run) state, .status st, _ =>
    if st = .pending ∨ st = .running then some (.nothing, .unlock none, none)
    else some (.nothing, .admission (some (.run run)) state, none)
  | .admission _ state, .ok, w =>
    if input.activates && !(ACTIVE_WORKSPACE_STATES.contains state) && !(hasCapacity cfg (some id) w) then
      some (.nothing, .unlock none, none)
    else some (.admitRun id me, .start, none)
  | .start, .started run, _ => some (.nothing, .record run, some ⟨run, id, input⟩)
  | .start, .throws _, _ => some (.nothing, .takeBack, none)
  | .takeBack, .ok, _ => some (.takeBack id me, .unlock none, none)
  | .record run, .ok, _ => some (.recordRun id me run, .unlock (some run), none)
  | .unlock result, .ok, _ => some (.unlock id me, .done result, none)
  | .unlock _, .throws _, _ => some (.nothing, .done none, none)
  | .done _, _, _ => none
  | _, .throws _, _ => some (.nothing, .unlock none, none)
  | _, _, _ => none

def StartCall.next (cfg : Config) (me : CallId) (c : StartCall) (a : Answer) (w : World) :
    Option (Stmt × StartCall × Option Starts) :=
  (c.pc.next cfg me c.ws c.input a w).map fun (stmt, pc, starts) => (stmt, { c with pc }, starts)

/-! ## `detectDeadSandbox` -/

/-- `SandboxLiveness`. -/
inductive Liveness where
  | alive (probe : HealthProbe)
  | unhealthy (probe : HealthProbe)
  | dead (reason : String)

/-- The positions of `detectDeadSandbox`: the status read, then up to three health probes. -/
inductive DetectPc where
  | peek
  | probe (missing : Bool) (attempt : Nat) (answered : Option HealthProbe)

/-- `DEAD_SANDBOX_HEALTH_ATTEMPTS`. -/
def deadSandboxHealthAttempts : Nat := 3

def SandboxStatus.toString : SandboxStatus → String
  | .pending => "pending"
  | .running => "running"
  | .stopping => "stopping"
  | .stopped => "stopped"
  | .failed => "failed"
  | .aborted => "aborted"
  | .snapshotting => "snapshotting"

def DetectPc.next (ws : Workspace) : DetectPc → Answer → Option (DetectPc ⊕ Liveness)
  | .peek, .sandboxStatus status =>
    if ws.currentWsHost.isNone ∨ ws.currentHealthHost.isNone then some (.inr (.dead "no_session"))
    else match status with
      -- a backend error is ignored in favour of the probe
      | none => some (.inl (.probe false 0 none))
      | some none => some (.inl (.probe true 0 none))
      | some (some st) =>
        if st ≠ .running ∧ st ≠ .pending then some (.inr (.dead ("sandbox_" ++ st.toString)))
        else some (.inl (.probe false 0 none))
  | .probe missing attempt answered, .probe p =>
    let answered := p.or answered
    match p with
    | some last =>
      if last.ready && last.serverRunning then some (.inr (.alive last))
      else if attempt + 1 < deadSandboxHealthAttempts then some (.inl (.probe missing (attempt + 1) answered))
      else some (.inr (.unhealthy last))
    | none =>
      if attempt + 1 < deadSandboxHealthAttempts then some (.inl (.probe missing (attempt + 1) answered))
      else match answered with
        | some last => some (.inr (.unhealthy last))
        | none => some (.inr (.dead (if missing then "sandbox_missing" else "health_unreachable")))
  | _, _ => none

/-! ## `POST /connect` -/

inductive ConnectReason where
  | opening | reconnect | resume
  deriving DecidableEq, Repr

/-- The positions of the route. `resumed` tells the second `detectDeadSandbox`, after the resume, from
the first. -/
inductive RequestPc where
  | load
  /-- `isRunActive` of the id the row names -/
  | status (ws : Workspace)
  | gate (ws : Workspace)
  | detect (ws : Workspace) (resumed : Bool) (pc : DetectPc)
  -- `markWorkspaceLost`
  | lostClose (ws : Workspace) (reason : String)
  | lostUpdate (ws : Workspace) (reason : String)
  | lostReload (ws : Workspace)
  | stopped (ws : Workspace)
  | starting (call : StartCall)
  /-- the wait of `resume` for the row to reach `running` -/
  | poll (deadline : Int)
  | openSession (ws : Workspace) (host : Host)
  | done

/-- `connectInput`, with the workspace of the path. -/
structure ConnectInput where
  ws : WsId
  reason : ConnectReason
  tabId : Nat
  clientBuild : Option String

structure Request where
  input : ConnectInput
  pc : RequestPc

/-- `BUSY_STATES`. -/
def BUSY_STATES : List WorkspaceState := [.creating, .stopping, .rebuilding, .deleting]

/-- `canDeferUpgrade`. -/
def canDeferUpgrade (cfg : Config) (clientBuild : String) : Bool :=
  "dev".toList.isPrefixOf clientBuild.toList || cfg.updaterBuilds.contains clientBuild

/-- The rest of the route on a workspace that no run is busy with. -/
def ConnectInput.afterGate (r : ConnectInput) (ws : Workspace) : RequestPc :=
  if !(buildsCompatible r.clientBuild (some ws.release.clientBuild)) then .done
  else if ws.state = .running then .detect ws false .peek
  else .stopped ws

/-- The gate of the route at the deployment's `release`. A request to open, not to redial, first upgrades
an interactive-only build and finishes a rebuild that was interrupted. -/
def ConnectInput.gate (cfg : Config) (r : ConnectInput) (ws : Workspace) (release : EditorRelease) : RequestPc :=
  if BUSY_STATES.contains ws.state then .done
  else if r.reason ≠ .reconnect ∧ (canDeferUpgrade cfg ws.release.clientBuild = false ∨ ws.previousSandboxName.isSome) then
    if !(buildsCompatible r.clientBuild (some release.clientBuild)) then .done
    else if ws.release ≠ release ∨ ws.previousSandboxName.isSome then
      .starting (.fresh r.ws (.rebuildWorkspace (some release)))
    else r.afterGate ws
  else r.afterGate ws

/-- `connectRunning`, up to the session it opens. -/
def connectRunning (ws : Workspace) (probe : HealthProbe) : RequestPc :=
  match ws.currentWsHost with
  | some host => if probe.ready && probe.serverRunning then .openSession ws host else .done
  | none => .done

/-- The route after `detectDeadSandbox`. -/
def RequestPc.afterDetect (ws : Workspace) (resumed : Bool) : DetectPc ⊕ Liveness → RequestPc
  | .inl pc => .detect ws resumed pc
  | .inr (.alive probe) => connectRunning ws probe
  | .inr (.unhealthy _) => .done
  | .inr (.dead reason) => if resumed then .done else .lostClose ws reason

/-- The route around its `startLifecycle` call. -/
def RequestPc.afterCall (now : Int) (call : StartCall) : RequestPc := match call.pc with
  | .done (some _) => match call.input with
    | .connectWorkspace _ => .poll (now + 45000)
    | _ => .done
  | .done none => .done
  | _ => .starting call

/-- The wait of `resume` once it has read the row again. -/
def RequestPc.afterPoll (now deadline : Int) (current : Option Workspace) : RequestPc :=
  match current.filter fun row => decide (row.state = .running ∧ row.workflowRunId = none) with
  | some row => .detect row true .peek
  | none => if deadline ≤ now then .done else .poll deadline

def RequestPc.next (cfg : Config) (me : Pid) (r : ConnectInput) :
    RequestPc → Answer → World → Option (Stmt × RequestPc × Option Starts)
  | .load, .ok, w => some (.nothing, ((w.liveRow r.ws).map .status).getD .done, none)
  | .status ws, a, _ => match ws.workflowRunId, a with
    | none, .ok => some (.nothing, .gate ws, none)
    | some (.admitting _), .ok => some (.nothing, .done, none)
    | some (.run _), .status st =>
      some (.nothing, if st = .pending ∨ st = .running then .done else .gate ws, none)
    | _, _ => none
  | .gate ws, .release release, _ => some (.nothing, r.gate cfg ws release, none)
  | .detect ws resumed pc, a, _ => (pc.next ws a).map fun x => (.nothing, afterDetect ws resumed x, none)
  | .lostClose ws reason, .ok, _ => some (.recordSessionEnd r.ws "sandbox_lost", .lostUpdate ws reason, none)
  | .lostUpdate ws reason, .ok, _ => some (.markLost r.ws reason, .lostReload ws, none)
  -- a row that is running again has no probe to connect with
  | .lostReload ws, .ok, w =>
    let live := (w.rows r.ws).getD { ws with state := .stopped }
    some (.nothing, if live.state = .running then .done else .stopped live, none)
  | .stopped _, .ok, _ =>
    some (.nothing, if r.reason = .reconnect then .done else .starting (.fresh r.ws (.connectWorkspace false)), none)
  | .starting call, a, w => (call.next cfg me a w).map fun (stmt, call, starts) =>
    (stmt, afterCall w.now call, starts)
  | .poll deadline, .ok, w => some (.nothing, afterPoll w.now deadline (w.rows r.ws), none)
  | .openSession ws host, .ok, _ => some (.openSession r.ws ws ⟨r.tabId, host⟩, .done, none)
  | .done, _, _ => none
  | _, .throws _, _ => some (.nothing, .done, none)
  | _, _, _ => none

def Request.next (cfg : Config) (me : Pid) (r : Request) (a : Answer) (w : World) :
    Option (Stmt × Request × Option Starts) :=
  (r.pc.next cfg me r.input a w).map fun (stmt, pc, starts) => (stmt, { r with pc }, starts)

/-! ## `reconcileRuns` -/

/-- `RUN_UNKNOWN_STALE_MS`. -/
def runUnknownStaleMs : Int := 60 * 60000

inductive ReconcilePc where
  | status
  | release (error : Option String)
  | done

/-- A stuck row of a sweep at `now`. -/
structure StuckRow where
  ws : WsId
  ref : RunRef
  startedAt : Int
  now : Int

structure Reconcile where
  row : StuckRow
  pc : ReconcilePc

def RunStatus.toString : RunStatus → String
  | .pending => "pending"
  | .running => "running"
  | .completed => "completed"
  | .failed => "failed"
  | .cancelled => "cancelled"
  | .unknown => "unknown"

def RunRef.isAdmitting : RunRef → Bool
  | .admitting _ => true
  | .run _ => false

/-- What the sweep does with the status of the run. -/
def StuckRow.afterStatus (r : StuckRow) : RunStatus → ReconcilePc
  | .pending | .running => .done
  | .unknown => if r.now - r.startedAt ≤ runUnknownStaleMs then .done else .release (some RunStatus.unknown.toString)
  | .completed => .release none
  | .failed => .release (some RunStatus.failed.toString)
  | .cancelled => .release (some RunStatus.cancelled.toString)

/-- No run has the id `admitting:<uuid>`, so the run store cannot describe it. -/
def ReconcilePc.next (r : StuckRow) : ReconcilePc → Answer → Option (Stmt × ReconcilePc)
  | .status, .status st =>
    if r.ref.isAdmitting && decide (st ≠ .unknown) then none else some (.nothing, r.afterStatus st)
  | .release error, .ok => some (.releaseRun r.ws r.ref error, .done)
  | .release _, .throws _ => some (.nothing, .done)
  | _, _ => none

def Reconcile.next (r : Reconcile) (a : Answer) : Option (Stmt × Reconcile) :=
  (r.pc.next r.row a).map fun (stmt, pc) => (stmt, { r with pc })

/-! ## `gc` -/

inductive GcPc where
  -- `stepWarnRetention`
  | warnSelect
  | warnUpdate (selected : List WsId)
  -- `stepGcCandidates`
  | expired
  | known (expired : List WsId)
  /-- deletes the head of the queue -/
  | delete (queue : List WsId) (known : List SandboxName) (child : ChildPc)
  | listOrphans (known : List SandboxName)
  | deleteOrphans (orphans : List SandboxName)
  -- `stepCloseStaleSessions`
  | staleSelect
  | staleUpdate (selected : List Nat)
  | done

/-- A garbage-collection run with the input `now`. -/
structure Gc where
  now : Int
  pc : GcPc

/-- The workspaces a gc run has selected and whose deletion it may still have to start. -/
def GcPc.held : GcPc → List WsId
  | .known ids => ids
  | .delete queue _ child => if child.mayStart then queue else queue.tail
  | _ => []

/-- The workspace whose deletion the next step starts. -/
def GcPc.aboutToDelete : GcPc → Option WsId
  | .delete (id :: _) _ .start => some id
  | _ => none

/-- The gc run around its wait for a deletion. -/
def GcPc.afterChild (id : WsId) (queue : List WsId) (known : List SandboxName) : Next ChildPc → GcPc
  | .goto child => .delete (id :: queue) known child
  | .returns => .delete queue known .start
  | .throws _ => .done

def GcPc.next (now : Int) : GcPc → Answer → World → Option (Stmt × GcPc × Option Starts)
  | .warnSelect, .ok, w => some (.nothing, .warnUpdate (w.select (Workspace.dueWarning now)), none)
  | .warnUpdate selected, .ok, _ => some (.warnRetention now selected, .expired, none)
  | .expired, .ok, w => some (.nothing, .known (expiredWorkspaces now w), none)
  | .known ids, .ok, w => some (.nothing, .delete ids (knownSandboxNames w) .start, none)
  | .delete [] names _, .ok, _ => some (.nothing, .listOrphans names, none)
  | .delete (id :: queue) names child, a, w => (child.next (.deleteWorkspace false) a w).map fun d =>
    (d.stmt, afterChild id queue names d.next, d.starts.map fun st => ⟨st.1, id, st.2⟩)
  | .listOrphans names, .listed listed, w =>
    some (.nothing, .deleteOrphans (stepListOrphanSandboxes names listed w), none)
  | .deleteOrphans [], .ok, _ => some (.nothing, .staleSelect, none)
  | .deleteOrphans (name :: orphans), .deletion how, _ => some (.deleteSandbox name how, .deleteOrphans orphans, none)
  | .staleSelect, .ok, w => some (.nothing, .staleUpdate (staleSessions now w), none)
  | .staleUpdate selected, .ok, _ => some (.closeStaleSessions now selected, .done, none)
  | .done, _, _ => none
  | _, .throws _, _ => some (.nothing, .done, none)
  | _, _, _ => none

def Gc.next (g : Gc) (a : Answer) (w : World) : Option (Stmt × Gc × Option Starts) :=
  (g.pc.next g.now a w).map fun (stmt, pc, starts) => (stmt, { g with pc }, starts)

end Zedspaces.Lifecycle
