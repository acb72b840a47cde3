/-
The lifecycle workflows (`workflows/*.ts`) as step functions. The body of a workflow is cut at its
`await`s: a position in the body, with the values the body holds there, is a constructor; one step
reads the world, takes the answer of the call it awaits, and gives the statement performed and where
the body goes on. Polling loops stay loops, with their deadlines. The `catch` of every workflow and the
`child` flag are in one place, `Run.next`.
-/
import Zedspaces.Lifecycle.Statements

namespace Zedspaces.Lifecycle

/-! ## Inputs, runs and answers -/

/-- Why a workspace is being stopped. -/
inductive StopReason where
  | idle | user | cap | rebuild | delete | abuse | lost | spendCap
  deriving DecidableEq, Repr

def StopReason.toString : StopReason → String
  | .idle => "idle"
  | .user => "user"
  | .cap => "cap"
  | .rebuild => "rebuild"
  | .delete => "delete"
  | .abuse => "abuse"
  | .lost => "lost"
  | .spendCap => "spend_cap"

/-- A workflow and its arguments; the workspace is kept with the run. -/
inductive Input where
  | createWorkspace (child : Bool)
  | connectWorkspace (child : Bool)
  | stopWorkspace (reason : StopReason) (child : Bool)
  | restartSession
  | rebuildWorkspace (upgrade : Option EditorRelease)
  | deleteWorkspace (child : Bool)
  deriving DecidableEq, Repr

/-- `input.child`: a parent workflow owns `workflow_run_id`. -/
def Input.child : Input → Bool
  | .createWorkspace child | .connectWorkspace child | .stopWorkspace _ child | .deleteWorkspace child => child
  | .restartSession | .rebuildWorkspace _ => false

inductive RunStatus where
  | pending | running | completed | failed | cancelled | unknown
  deriving DecidableEq, Repr

/-- What a call answers. `throws` is its failure; `crashed` is a step whose function dies after an
effect, which the runtime runs again. -/
inductive Answer where
  | ok
  | throws (error : String)
  | crashed
  | release (release : EditorRelease)
  | cmd (id : CmdId)
  | alive (alive : Bool)
  | exit (code : Option Int)
  | probe (probe : Option HealthProbe)
  | snapshot (sizeBytes : Option Nat)
  | deletion (how : Deletion)
  | started (run : RunId)
  | status (status : RunStatus)
  | sandboxStatus (status : Option (Option SandboxStatus))
  | listed (names : List SandboxName)

/-- Where a body is after a step. -/
inductive Next (pc : Type) where
  | goto (pc : pc)
  | returns
  | throws (error : String)

/-- One step: the statement it performs, where the body goes on, and the run it starts. -/
structure Did (pc : Type) where
  stmt : Stmt
  next : Next pc
  starts : Option (RunId × Input) := none

namespace Did

variable {pc pc' : Type}

/-- A statement, then the position `p`. -/
def goto (stmt : Stmt) (p : pc) : Option (Did pc) := some { stmt, next := .goto p }
/-- A statement, then the end of the body. -/
def returns (stmt : Stmt) : Option (Did pc) := some { stmt, next := .returns }
/-- The step fails without an effect. -/
def throws (error : String) : Option (Did pc) := some { stmt := .nothing, next := .throws error }

/-- The step of a part of a body, as a step of the body: `f` is the body around the part, `after` where
it goes on when the part returns. -/
def within (f : pc → pc') (after : Next pc') (d : Did pc) : Did pc' :=
  { stmt := d.stmt, starts := d.starts
    next := match d.next with
      | .goto p => .goto (f p)
      | .returns => after
      | .throws error => .throws error }

end Did

/-! ## `child.ts` -/

/-- `UNKNOWN_CEILING_MS`. -/
def unknownCeilingMs : Int := 45 * 60000

/-- The positions of `runChild`. The token of the child is known to this call only, so its entry in
the store is there exactly after `record`. -/
inductive ChildPc where
  /-- before `startRun` in `stepStartChild` -/
  | start
  /-- the child runs, its id is not stored yet -/
  | record (run : RunId)
  /-- the loop of `awaitChild` -/
  | await (run : RunId) (startedAt : Int)
  /-- `stepChildResult` -/
  | result (run : RunId)
  deriving DecidableEq

/-- The run this call has started and waits for. -/
def ChildPc.run? : ChildPc → Option RunId
  | .start => none
  | .record run | .await run _ | .result run => some run

/-- The call may still have to start a run: it has not started one, or it has not stored its id. -/
def ChildPc.mayStart : ChildPc → Bool
  | .start | .record _ => true
  | .await _ _ | .result _ => false

/-- `runChild(name, args)`. -/
def ChildPc.next (input : Input) : ChildPc → Answer → World → Option (Did ChildPc)
  | .start, .started run, _ => some { stmt := .nothing, next := .goto (.record run), starts := some (run, input) }
  | .start, .throws error, _ => Did.throws error
  -- without a stored id the step that runs again starts another child
  | .record _, .crashed, _ => Did.goto .nothing .start
  | .record _, .throws error, _ => Did.throws error
  | .record run, .ok, w => Did.goto .nothing (.await run w.now)
  | .await run startedAt, .status status, w =>
    match status with
    | .completed | .failed | .cancelled => Did.goto .nothing (.result run)
    | .unknown =>
      if w.now - startedAt > unknownCeilingMs then Did.throws "child_lost" else Did.goto .nothing (.await run startedAt)
    | .pending | .running => Did.goto .nothing (.await run startedAt)
  | .result _, .ok, _ => Did.returns .nothing
  | .result _, .throws error, _ => Did.throws ("child_failed: " ++ error)
  | _, _, _ => none

/-! ## `createWorkspace` -/

inductive CreatePc where
  | load
  | pickImage (ws : Workspace)
  | buildInput (ws : Workspace) (image : String)
  | createSandbox (ws : Workspace) (input : CreateSandboxInput)
  | record (ws : Workspace) (created : SandboxSessionHosts)
  | startSupervisor (ws : Workspace) (created : SandboxSessionHosts)
  | probe (ws : Workspace) (created : SandboxSessionHosts) (cmd : CmdId) (deadline : Int)
  | waitExit (ws : Workspace) (created : SandboxSessionHosts) (cmd : CmdId) (deadline : Int)
      (health : Option HealthProbe)
  | setRunning (ws : Workspace)

/-- What the body reports of the last probe. -/
def phaseOf : Option HealthProbe → String
  | some p => p.phase
  | none => "unreachable"

/-- What the loop of a boot does with a probe: `done` when the server is up with a compatible build. -/
inductive Readiness where
  | done | mismatch (error : String) | notYet

def readiness (serverBuild : String) : Option HealthProbe → Readiness
  | some p =>
    if p.serverRunning && p.ready then
      if buildsCompatible p.build (some serverBuild) then .done
      else .mismatch ("build_mismatch:" ++ p.build.getD "null")
    else .notYet
  | none => .notYet

/-- The patch of a create run whose supervisor is up. The rebuild parent owns the archive until its
old-generation cleanup completes. -/
def Workspace.readyPatch (ws : Workspace) : WorkspacePatch :=
  match ws.previousSandboxName with
  | some _ => .none
  | none => .clearArchive

def CreatePc.next (cfg : Config) (id : WsId) : CreatePc → Answer → World → Option (Did CreatePc)
  | .load, .ok, w => match stepLoadWorkspace id w with
    | some ws => Did.goto .nothing (.pickImage ws)
    | none => Did.throws "workspace_missing"
  | .pickImage ws, .ok, w => match stepPickImage id w with
    | some image => Did.goto .nothing (.buildInput ws image)
    | none => Did.throws "workspace_missing"
  | .buildInput ws image, .ok, w => match stepBuildCreateInput cfg id image w with
    | some input => Did.goto .nothing (.createSandbox ws input)
    | none => Did.throws "workspace_missing"
  | .createSandbox ws input, .ok, w =>
    Did.goto (.getOrCreate input.name) (.record ws (hostsIn cfg input.name (w.getOrCreate cfg input.name)))
  | .record ws created, .ok, _ =>
    Did.goto (.recordSandboxSession id .creating (some "boot:manifest") created (some ws.restoreKind) none)
      (.startSupervisor ws created)
  | .startSupervisor ws created, .cmd cmd, w =>
    if (w.liveRow id).isNone then Did.throws "workspace_missing"
    else if (w.sandboxes ws.sandboxName).isNone then Did.throws "sandbox_missing"
    else Did.goto (.startSupervisor id ws.sandboxName cmd) (.probe ws created cmd (w.now + 35 * 60000))
  | .probe ws created cmd deadline, .probe health, _ =>
    match readiness ws.release.serverBuild health with
    | .done => Did.goto (.noteBootPhase id health) (.setRunning ws)
    | .mismatch error => some { stmt := .noteBootPhase id health, next := .throws error }
    | .notYet => Did.goto (.noteBootPhase id health) (.waitExit ws created cmd deadline health)
  | .waitExit ws created cmd deadline health, .exit code, w =>
    if code.isSome then Did.throws ("supervisor_exit:" ++ phaseOf health)
    else if w.now > deadline then Did.throws ("health_timeout:" ++ phaseOf health)
    else Did.goto .nothing (.probe ws created cmd deadline)
  | .setRunning ws, .ok, _ => Did.returns (.setState id .running (some none) ws.readyPatch)
  | _, .throws error, _ => Did.throws error
  | _, _, _ => none

/-! ## `connectWorkspace` -/

inductive ConnectPc where
  | load
  | setResuming (ws : Workspace)
  /-- the resume of `stepResumeSandbox` -/
  | resumeVm (ws : Workspace)
  /-- its supervisor; `fresh` when the resume hook runs, because the VM was not running -/
  | resumeSupervisor (ws : Workspace) (resumed : SandboxSessionHosts) (fresh : Bool)
  | record (ws : Workspace) (resumed : SandboxSessionHosts) (cmd : CmdId)
  | probe (ws : Workspace) (resumed : SandboxSessionHosts) (cmd : CmdId) (deadline : Int)
  | waitExit (ws : Workspace) (resumed : SandboxSessionHosts) (cmd : CmdId) (deadline : Int)
      (health : Option HealthProbe)
  | setRunning (ws : Workspace)

def ConnectPc.next (cfg : Config) (id : WsId) : ConnectPc → Answer → World → Option (Did ConnectPc)
  | .load, .ok, w => match stepLoadWorkspace id w with
    | some ws => Did.goto .nothing (.setResuming ws)
    | none => Did.throws "workspace_missing"
  | .setResuming ws, .ok, _ => Did.goto (.setState id .stopped (some (some "resuming")) .none) (.resumeVm ws)
  | .resumeVm ws, .ok, w =>
    if (w.liveRow id).isNone then Did.throws "workspace_missing"
    else match w.sandboxes ws.sandboxName with
      | some sb => Did.goto (.resume ws.sandboxName)
        (.resumeSupervisor ws (hostsIn cfg ws.sandboxName (w.resume cfg ws.sandboxName)) sb.resumes)
      | none => Did.throws "sandbox_missing"
  -- a supervisor that is still alive is kept
  | .resumeSupervisor ws resumed fresh, .alive alive, w =>
    match (w.liveRow id).bind (·.supervisorCmdId) with
    | some cmd => if alive && !fresh then Did.goto .nothing (.record ws resumed cmd) else none
    | none => none
  | .resumeSupervisor ws resumed _, .cmd cmd, _ =>
    Did.goto (.startSupervisor id ws.sandboxName cmd) (.record ws resumed cmd)
  | .record ws resumed cmd, .ok, w =>
    Did.goto (.recordSandboxSession id .stopped (some "boot:manifest") resumed none (some (some cmd)))
      (.probe ws resumed cmd (w.now + 3 * 60000))
  | .probe ws resumed cmd deadline, .probe health, _ =>
    match readiness ws.release.serverBuild health with
    | .done => Did.goto (.noteBootPhase id health) (.setRunning ws)
    | .mismatch error => some { stmt := .noteBootPhase id health, next := .throws error }
    | .notYet => Did.goto (.noteBootPhase id health) (.waitExit ws resumed cmd deadline health)
  | .waitExit ws resumed cmd deadline health, .exit code, w =>
    if code.isSome then Did.throws ("supervisor_exit:" ++ phaseOf health)
    else if w.now > deadline then Did.throws ("health_timeout:" ++ phaseOf health)
    else Did.goto .nothing (.probe ws resumed cmd deadline)
  | .setRunning _, .ok, _ => Did.returns (.setState id .running (some none) .none)
  | _, .throws error, _ => Did.throws error
  | _, _, _ => none

/-! ## `stopWorkspace` -/

inductive StopPc where
  | load
  | setStopping (ws : Workspace)
  | signal (ws : Workspace)
  | waitExit (ws : Workspace) (cmd : CmdId)
  | probe (ws : Workspace) (host : Host) (deadline : Int)
  | stopSandbox (ws : Workspace)
  | recordEnd (ws : Workspace) (sizeBytes : Option Nat)
  | markStopped (ws : Workspace) (sizeBytes : Option Nat)

def StopPc.next (id : WsId) (reason : StopReason) : StopPc → Answer → World → Option (Did StopPc)
  | .load, .ok, w => match stepLoadWorkspace id w with
    | some ws => if ws.state = .stopped then Did.returns .nothing else Did.goto .nothing (.setStopping ws)
    | none => Did.throws "workspace_missing"
  | .setStopping ws, .ok, _ => Did.goto (.setState id .stopping (some (some reason.toString)) .none) (.signal ws)
  | .signal ws, .ok, w => Did.goto .nothing (match ws.supervisorCmdId, ws.currentHealthHost with
    | some cmd, _ => .waitExit ws cmd
    | none, some host => .probe ws host (w.now + 25000)
    | none, none => .stopSandbox ws)
  | .waitExit ws _, .exit _, _ => Did.goto .nothing (.stopSandbox ws)
  | .probe ws host deadline, .probe health, w =>
    Did.goto (.noteBootPhase id health) (
      if health.all (fun p => p.stopping && !p.serverRunning) || decide (w.now > deadline) then .stopSandbox ws
      else .probe ws host deadline)
  | .stopSandbox ws, .snapshot sizeBytes, _ => Did.goto (.stopSandbox ws.sandboxName) (.recordEnd ws sizeBytes)
  | .recordEnd ws sizeBytes, .ok, _ =>
    Did.goto (.recordSessionEnd id reason.toString) (.markStopped ws sizeBytes)
  | .markStopped _ sizeBytes, .ok, _ =>
    Did.returns (.markStopped id reason.toString (if reason = .rebuild then .rebuilding else .stopped) sizeBytes)
  | _, .throws error, _ => Did.throws error
  | _, _, _ => none

/-! ## `restartSession` -/

inductive RestartPc where
  | stop (child : ChildPc)
  | connect (child : ChildPc)

def RestartPc.next : RestartPc → Answer → World → Option (Did RestartPc)
  | .stop child, a, w =>
    (child.next (.stopWorkspace .cap true) a w).map (Did.within .stop (.goto (.connect .start)))
  | .connect child, a, w => (child.next (.connectWorkspace true) a w).map (Did.within .connect .returns)

/-! ## `rebuildWorkspace` -/

inductive RebuildPc where
  | load
  /-- `stepCurrentRelease`, when no release is pinned -/
  | currentRelease (ws : Workspace)
  -- a generation bump is pending from a failed rebuild
  | setRetry (ws : Workspace) (release : EditorRelease) (previous : SandboxName) (blob : BlobPath)
  | deleteCurrent (ws : Workspace) (release : EditorRelease) (previous : SandboxName) (blob : BlobPath)
  | setRelease (release : EditorRelease) (previous : SandboxName) (blob : BlobPath)
  -- otherwise
  | stop (ws : Workspace) (release : EditorRelease) (child : ChildPc)
  | setArchive (ws : Workspace) (release : EditorRelease)
  | resumeQuiet (ws : Workspace) (release : EditorRelease)
  | startArchive (ws : Workspace) (release : EditorRelease)
  | waitArchive (ws : Workspace) (release : EditorRelease) (deadline : Int)
  | finishArchive (ws : Workspace) (release : EditorRelease)
  | stopDiscard (ws : Workspace) (release : EditorRelease) (blob : BlobPath)
  | recordEnd (ws : Workspace) (release : EditorRelease) (blob : BlobPath)
  | bumpRead (ws : Workspace) (release : EditorRelease) (blob : BlobPath)
  | bumpWrite (ws : Workspace) (read : Workspace) (release : EditorRelease) (blob : BlobPath)
  -- both
  | create (previous : SandboxName) (blob : BlobPath) (child : ChildPc)
  | deletePrevious (previous : SandboxName) (blob : BlobPath)
  | clearPointers (blob : BlobPath)
  | deleteBlob (blob : BlobPath)

/-- `ARCHIVE_CEILING_MS`. -/
def archiveCeilingMs : Int := 20 * 60000

/-- The body after the release is known. -/
def RebuildPc.branch (ws : Workspace) (release : EditorRelease) (upgrade : Option EditorRelease) : Next RebuildPc :=
  match ws.previousSandboxName with
  | some previous =>
    match ws.restoreKind, ws.restoreBlobPathname with
    | .tarball, some blob => .goto (.setRetry ws release previous blob)
    | _, _ => .throws "rebuild_pointers_inconsistent"
  | none =>
    if upgrade.isSome ∧ ws.release = release then .returns
    else if ws.state ≠ .stopped then .goto (.stop ws release .start)
    else .goto (.setArchive ws release)

def RebuildPc.next (id : WsId) (upgrade : Option EditorRelease) :
    RebuildPc → Answer → World → Option (Did RebuildPc)
  | .load, .ok, w => match stepLoadWorkspace id w, upgrade with
    | some ws, some release => some { stmt := .nothing, next := branch ws release upgrade }
    | some ws, none => Did.goto .nothing (.currentRelease ws)
    | none, _ => Did.throws "workspace_missing"
  | .currentRelease ws, .release release, _ => some { stmt := .nothing, next := branch ws release upgrade }
  | .setRetry ws release previous blob, .ok, _ =>
    Did.goto (.setState id .rebuilding (some (some "retry")) .none) (.deleteCurrent ws release previous blob)
  -- whatever the failed create left behind under the current name
  | .deleteCurrent ws release previous blob, .deletion how, _ =>
    Did.goto (.deleteSandbox ws.sandboxName how) (.setRelease release previous blob)
  | .setRelease release previous blob, .ok, _ => Did.goto (.setRelease id release) (.create previous blob .start)
  | .stop ws release child, a, w =>
    (child.next (.stopWorkspace .rebuild true) a w).map (Did.within (.stop ws release) (.goto (.setArchive ws release)))
  | .setArchive ws release, .ok, _ =>
    Did.goto (.setState id .rebuilding (some (some "archive")) .none) (.resumeQuiet ws release)
  | .resumeQuiet ws release, .ok, w =>
    if (w.sandboxes ws.sandboxName).isNone then Did.throws "sandbox_missing"
    else Did.goto (.resume ws.sandboxName) (.startArchive ws release)
  | .startArchive ws release, .ok, w =>
    if (w.sandboxes ws.sandboxName).isNone then Did.throws "sandbox_missing"
    else Did.goto (.startArchive ws.sandboxName) (.waitArchive ws release (w.now + archiveCeilingMs))
  | .waitArchive ws release deadline, .exit code, w => match code with
    | some 0 => Did.goto .nothing (.finishArchive ws release)
    | some _ => Did.throws "archive_failed"
    | none =>
      if w.now > deadline then Did.throws "archive_timeout"
      else Did.goto .nothing (.waitArchive ws release deadline)
  | .finishArchive ws release, .ok, w =>
    if (w.archiveTmp ws.sandboxName).isNone then Did.throws "archive_missing"
    else Did.goto (.finishArchive ws.sandboxName) (.stopDiscard ws release w.nextBlob)
  | .stopDiscard ws release blob, .ok, _ => Did.goto (.stopSandbox ws.sandboxName) (.recordEnd ws release blob)
  | .recordEnd ws release blob, .ok, _ => Did.goto (.recordSessionEnd id "rebuild") (.bumpRead ws release blob)
  | .bumpRead ws release blob, .ok, w => match stepBumpGenerationRead id w with
    | some read => Did.goto .nothing (.bumpWrite ws read release blob)
    | none => Did.throws "generation_bump_pending"
  | .bumpWrite _ read release blob, .ok, _ =>
    Did.goto (.bumpGeneration id read blob release) (.create read.sandboxName blob .start)
  | .create previous blob child, a, w =>
    (child.next (.createWorkspace true) a w).map (Did.within (.create previous blob) (.goto (.deletePrevious previous blob)))
  -- only now: the new generation is healthy
  | .deletePrevious previous blob, .deletion how, _ => Did.goto (.deleteSandbox previous how) (.clearPointers blob)
  | .clearPointers blob, .ok, _ =>
    Did.goto (.setState id .running (some none) .clearPointers) (.deleteBlob blob)
  | .deleteBlob blob, .ok, _ => Did.returns (.deleteBlob blob)
  | _, .throws error, _ => Did.throws error
  | _, _, _ => none

/-! ## `deleteWorkspace` -/

inductive DeletePc where
  | load
  | stop (ws : Workspace) (child : ChildPc)
  | setDeleting (ws : Workspace)
  | deleteSandbox (ws : Workspace)
  | deletePrevious (ws : Workspace) (previous : SandboxName)
  | deleteBlob (ws : Workspace) (blob : BlobPath)
  /-- `stepPurgeWorkspaceRows`: the sessions, then the row -/
  | purgeSessions
  | purgeRow

/-- The body after the current sandbox is gone. -/
def DeletePc.afterSandbox (ws : Workspace) : DeletePc := match ws.previousSandboxName with
  | some previous => .deletePrevious ws previous
  | none => match ws.restoreBlobPathname with
    | some blob => .deleteBlob ws blob
    | none => .purgeSessions

def DeletePc.next (id : WsId) : DeletePc → Answer → World → Option (Did DeletePc)
  | .load, .ok, w => match stepLoadWorkspace id w with
    | some ws => Did.goto .nothing (
      if ws.state = .running ∨ ws.state = .stopping then .stop ws .start else .setDeleting ws)
    | none => Did.throws "workspace_missing"
  | .stop ws child, a, w =>
    (child.next (.stopWorkspace .delete true) a w).map (Did.within (.stop ws) (.goto (.setDeleting ws)))
  | .setDeleting ws, .ok, _ => Did.goto (.setState id .deleting none .none) (.deleteSandbox ws)
  | .deleteSandbox ws, .deletion how, _ => Did.goto (.deleteSandbox ws.sandboxName how) (afterSandbox ws)
  | .deletePrevious ws previous, .deletion how, _ =>
    Did.goto (.deleteSandbox previous how) (match ws.restoreBlobPathname with
      | some blob => .deleteBlob ws blob
      | none => .purgeSessions)
  | .deleteBlob _ blob, .ok, _ => Did.goto (.deleteBlob blob) .purgeSessions
  | .purgeSessions, .ok, _ => Did.goto (.recordSessionEnd id "deleted") .purgeRow
  | .purgeRow, .ok, _ => Did.returns (.purgeRows id)
  | _, .throws error, _ => Did.throws error
  | _, _, _ => none

/-! ## Runs -/

/-- A position in the body of some workflow. -/
inductive Body where
  | create (pc : CreatePc)
  | connect (pc : ConnectPc)
  | stop (pc : StopPc)
  | restart (pc : RestartPc)
  | rebuild (pc : RebuildPc)
  | delete (pc : DeletePc)

/-- Where the body of a workflow starts. -/
def Input.body : Input → Body
  | .createWorkspace _ => .create .load
  | .connectWorkspace _ => .connect .load
  | .stopWorkspace _ _ => .stop .load
  | .restartSession => .restart (.stop .start)
  | .rebuildWorkspace _ => .rebuild .load
  | .deleteWorkspace _ => .delete .load

/-- A step of a body as a step of the workflow it belongs to. -/
def Did.inBody {pc : Type} (f : pc → Body) (d : Did pc) : Did Body :=
  { stmt := d.stmt, starts := d.starts
    next := match d.next with
      | .goto p => .goto (f p)
      | .returns => .returns
      | .throws error => .throws error }

def Body.next (cfg : Config) (id : WsId) : Input → Body → Answer → World → Option (Did Body)
  | .createWorkspace _, .create pc, a, w => (pc.next cfg id a w).map (.inBody .create)
  | .connectWorkspace _, .connect pc, a, w => (pc.next cfg id a w).map (.inBody .connect)
  | .stopWorkspace reason _, .stop pc, a, w => (pc.next id reason a w).map (.inBody .stop)
  | .restartSession, .restart pc, a, w => (pc.next a w).map (.inBody .restart)
  | .rebuildWorkspace upgrade, .rebuild pc, a, w => (pc.next id upgrade a w).map (.inBody .rebuild)
  | .deleteWorkspace _, .delete pc, a, w => (pc.next id a w).map (.inBody .delete)
  | _, _, _, _ => none

/-- Who started a run. -/
inductive Starter where
  | call (call : CallId)
  | parent (parent : Pid)
  deriving DecidableEq

/-- Where a run is: in its body, before its closing `stepFinishRun`, or over. -/
inductive Phase where
  | body (body : Body)
  | finishing (outcome : RunOutcome)
  | ended (ok : Bool)

/-- A workflow run. -/
structure Run where
  ws : WsId
  input : Input
  starter : Starter
  phase : Phase

/-- The run is in flight. -/
def Run.inFlight (r : Run) : Bool := match r.phase with
  | .ended _ => false
  | _ => true

def Run.fresh (ws : WsId) (input : Input) (starter : Starter) : Run := ⟨ws, input, starter, .body input.body⟩

/-- After the body: a child leaves the row to its parent, any other run finishes it. -/
def Run.close (r : Run) (outcome : RunOutcome) : Phase :=
  if r.input.child then .ended (match outcome with
    | .ok => true
    | .failed _ _ => false)
  else .finishing outcome

/-- One step of a run, with the run it starts. A closing `stepFinishRun` that fails is retried with
the failure; when that one fails too the run is left as a killed one is. -/
def Run.next (cfg : Config) (r : Run) (a : Answer) (w : World) : Option (Stmt × Run × Option (RunId × Input)) :=
  match r.phase with
  | .body b => (b.next cfg r.ws r.input a w).map fun d =>
      (d.stmt, { r with phase := match d.next with
        | .goto b => .body b
        | .returns => r.close .ok
        | .throws error => r.close (.failed error none) }, d.starts)
  | .finishing .ok => match a with
    | .ok => some (.finishRun r.ws .ok, { r with phase := .ended true }, none)
    | .throws error => some (.nothing, { r with phase := .finishing (.failed error none) }, none)
    | _ => none
  | .finishing (.failed error state) => match a with
    | .ok => some (.finishRun r.ws (.failed error state), { r with phase := .ended false }, none)
    | _ => none
  | .ended _ => none

end Zedspaces.Lifecycle
