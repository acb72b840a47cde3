/-
The local sandbox backend on one sandbox: the record it keeps in `sandbox.json`, and the calls that read and write it in
one process. A call runs from one await to the next without a break; where it awaits something and reads the record
again afterwards, only what it is doing is kept, but `create` and `get` keep the record they have read over their wait.

The other members of a handle and of the API only read the record. A port is allocated in several awaits, none of which
touches the record, and they are one here.
-/
import Zedspaces.Lib.Processes
import Zedspaces.Lib.Text
import Zedspaces.Lifecycle.Schema

namespace Zedspaces.Web

open Lib Lifecycle

/-- One detached or finished command of a local sandbox; no exit code while it runs. -/
structure LocalCommandRecord where
  cmdId : Text
  pid : Nat
  startedAt : Int
  exitCode : Option Int
  deriving DecidableEq, Repr

/-- `sandbox.json` -/
structure LocalSandboxRecord where
  name : Text
  portMap : List (Int × Int)
  internal : Int × Int
  status : SandboxStatus
  startedAt : Option Int
  expiresAt : Option Int
  sessionId : Option Text
  sessionSeq : Nat
  timeoutMs : Int
  keepLastSnapshots : Option Int
  snapshotIds : List Text
  commands : List LocalCommandRecord
  cmdSeq : Nat
  deriving DecidableEq, Repr

/-- The fields of `CreateSandboxInput` that the record's other fields are made of. -/
structure LocalCreateInput where
  name : Text
  timeoutMs : Int
  keepLastSnapshots : Option Int
  deriving DecidableEq, Repr

namespace LocalSandboxRecord

/-- `startSession`: a fresh session id, timeout, `running`. -/
def startSession (record : LocalSandboxRecord) (now : Int) : LocalSandboxRecord :=
  { record with
    sessionSeq := record.sessionSeq + 1
    sessionId := some ("lses_".toList ++ record.name ++ "_".toList ++ Nat.toDigits 10 (record.sessionSeq + 1))
    startedAt := some now
    expiresAt := some (now + record.timeoutMs)
    status := .running }

/-- The record that `create` writes for a sandbox that is new. -/
def created (input : LocalCreateInput) (portMap : List (Int × Int)) (internal : Int × Int) (now : Int) :
    LocalSandboxRecord :=
  startSession
    { name := input.name, portMap, internal, status := .running, startedAt := none, expiresAt := none,
      sessionId := none, sessionSeq := 0, timeoutMs := input.timeoutMs, keepLastSnapshots := input.keepLastSnapshots,
      snapshotIds := [], commands := [], cmdSeq := 0 } now

/-- `record.commands[cmdId]` -/
def command (record : LocalSandboxRecord) (cmdId : Text) : Option LocalCommandRecord :=
  record.commands.find? fun command => command.cmdId = cmdId

/-- The id of the next command. -/
def nextCmdId (record : LocalSandboxRecord) : Text :=
  "lcmd_".toList ++ (Nat.toDigits 10 (record.cmdSeq + 1)).leftpad 4 '0'

/-- A command is added under the next id, over what is there. -/
def ranDetached (record : LocalSandboxRecord) (pid : Nat) (now : Int) : LocalSandboxRecord :=
  let command : LocalCommandRecord := ⟨record.nextCmdId, pid, now, none⟩
  { record with
    cmdSeq := record.cmdSeq + 1
    commands := record.commands.filter (fun other => other.cmdId ≠ command.cmdId) ++ [command] }

def exited (record : LocalSandboxRecord) (cmdId : Text) (exitCode : Int) : LocalSandboxRecord :=
  { record with commands := record.commands.map fun command =>
      if command.cmdId = cmdId then { command with exitCode := some exitCode } else command }

/-- The commands that run no more have an unknown exit. -/
def terminated (record : LocalSandboxRecord) (alive : List Nat) : LocalSandboxRecord :=
  { record with commands := record.commands.map fun command =>
      if command.exitCode = none ∧ command.pid ∉ alive then { command with exitCode := some (-1) } else command }

def extended (record : LocalSandboxRecord) (ms now : Int) : LocalSandboxRecord :=
  { record with expiresAt := some (record.expiresAt.getD now + ms) }

def stopping (record : LocalSandboxRecord) : LocalSandboxRecord := { record with status := .stopping }

def stopped (record : LocalSandboxRecord) : LocalSandboxRecord :=
  { record with status := .stopped, sessionId := none, startedAt := none, expiresAt := none }

/-- The oldest snapshots go when there are more than are kept. -/
def snapshotted (record : LocalSandboxRecord) (snapshotId : Text) : LocalSandboxRecord :=
  let snapshotIds := record.snapshotIds ++ [snapshotId]
  let keep := record.keepLastSnapshots.getD 0
  { record with snapshotIds := if 0 < keep then snapshotIds.drop (snapshotIds.length - keep.toNat) else snapshotIds }

def droppedSnapshot (record : LocalSandboxRecord) (snapshotId : Text) : LocalSandboxRecord :=
  { record with snapshotIds := record.snapshotIds.filter (· ≠ snapshotId) }

end LocalSandboxRecord

/-! ## What is written -/

/-- A change made to the record there is. -/
inductive RecordEdit where
  | ranDetached (pid : Nat) (now : Int)
  | exited (cmdId : Text) (exitCode : Int)
  | terminated (alive : List Nat)
  | extended (ms now : Int)
  | stopping
  | stopped
  | snapshotted (snapshotId : Text)
  | droppedSnapshot (snapshotId : Text)
  deriving DecidableEq, Repr

def RecordEdit.on : RecordEdit → LocalSandboxRecord → LocalSandboxRecord
  | .ranDetached pid now, record => record.ranDetached pid now
  | .exited cmdId exitCode, record => record.exited cmdId exitCode
  | .terminated alive, record => record.terminated alive
  | .extended ms now, record => record.extended ms now
  | .stopping, record => record.stopping
  | .stopped, record => record.stopped
  | .snapshotted snapshotId, record => record.snapshotted snapshotId
  | .droppedSnapshot snapshotId, record => record.droppedSnapshot snapshotId

/-- What a write of the record is for. `callback` says that a `get` with an `onResume` opens the session. -/
inductive RecordUpdate where
  | created (record : LocalSandboxRecord)
  | started (callback : Bool) (now : Int)
  | edited (edit : RecordEdit)
  | deleted
  deriving DecidableEq, Repr

/-- A write of the record, or a run of `onResume`. -/
inductive LocalEffect where
  | wrote (update : RecordUpdate)
  | onResume
  deriving DecidableEq, Repr

/-- The file and the children of this process; `live` are the keys of `liveCommands`, and `log` is the history of what
was done, which nothing reads. -/
structure LocalWorld where
  record : Option LocalSandboxRecord
  children : List Text
  live : List Text
  log : List LocalEffect
  deriving DecidableEq, Repr

namespace LocalWorld

/-- `writeRecord(record)` -/
def writeRecord (w : LocalWorld) (record : LocalSandboxRecord) (update : RecordUpdate) : LocalWorld :=
  { w with record := some record, log := w.log ++ [.wrote update] }

/-- Writes back the record that was read, with a change. -/
def edit (w : LocalWorld) (record : LocalSandboxRecord) (change : RecordEdit) : LocalWorld :=
  w.writeRecord (change.on record) (.edited change)

end LocalWorld

/-! ## The calls -/

/-- What a call of `stop` or `delete` does next. -/
inductive AfterTermination where
  | stop
  | delete
  deriving DecidableEq, Repr

/-- Where a call waits: `resuming` for `restoreIfNeeded`, `allocating` for the ports, `terminating` in `terminateAll`,
`snapshotting` for the archive, of a `stop` or of `snapshot`, `stopping` and `deleting` for the part before, and
`waiting` for the exit of a command that an earlier process started. -/
inductive LocalCall where
  | done
  | resuming (record : LocalSandboxRecord) (callback : Bool)
  | allocating (input : LocalCreateInput)
  | terminating (after : AfterTermination)
  | snapshotting (stop : Bool)
  | stopping
  | deleting
  | waiting (cmdId : Text)
  deriving DecidableEq, Repr

/-- A call of the handle or the API, with what it gets from outside in its first turn: the child's pid, nothing when it
could not be started, and the time. -/
inductive LocalInput where
  | create (input : LocalCreateInput)
  | get (resume callback : Bool)
  | runDetached (pid : Option Nat) (now : Int)
  | extendTimeout (ms now : Int)
  | stop
  | snapshot
  | delete
  | waitCommand (cmdId : Text)
  | deleteSnapshot (snapshotId : Text)
  deriving DecidableEq, Repr

/-- What a call's wait comes to. -/
inductive LocalAnswer where
  | failed
  | restored (now : Int)
  | allocated (portMap : List (Int × Int)) (internal : Int × Int) (now : Int)
  | terminated (alive : List Nat)
  | archived (snapshotId : Text)
  | returned
  | exited
  deriving DecidableEq, Repr

/-- A child of this process exits, or reports an error. -/
inductive ChildEvent where
  | exit (cmdId : Text) (exitCode : Int)
  | error (cmdId : Text)
  deriving DecidableEq, Repr

namespace LocalWorld

/-- `runDetached(input)` -/
def runDetached (w : LocalWorld) (pid : Option Nat) (now : Int) : LocalWorld :=
  match w.record, pid with
  | some record, some pid =>
    if record.status = .running then
      let w' := w.edit record (.ranDetached pid now)
      { w' with
        children := w.children ++ [record.nextCmdId]
        live := w.live.filter (· ≠ record.nextCmdId) ++ [record.nextCmdId] }
    else w
  | _, _ => w

/-- `extendTimeout(ms)` -/
def extendTimeout (w : LocalWorld) (ms now : Int) : LocalWorld :=
  match w.record with
  | some record => w.edit record (.extended ms now)
  | none => w

/-- `stop()`, up to the wait of `terminateAll`. -/
def stop (w : LocalWorld) : LocalWorld × LocalCall :=
  match w.record with
  | some record => if record.status = .stopped then (w, .done) else (w.edit record .stopping, .terminating .stop)
  | none => (w, .done)

/-- `waitCommand(cmdId, timeoutMs)`; what this process started is waited for without the record. -/
def waitCommand (w : LocalWorld) (cmdId : Text) : LocalCall :=
  match w.record.bind fun record => record.command cmdId with
  | some command => if command.exitCode = none ∧ cmdId ∉ w.live then .waiting cmdId else .done
  | none => .done

/-- `deleteSnapshot(snapshotId)` -/
def deleteSnapshot (w : LocalWorld) (snapshotId : Text) : LocalWorld :=
  match w.record with
  | some record => if snapshotId ∈ record.snapshotIds then w.edit record (.droppedSnapshot snapshotId) else w
  | none => w

/-- `create(input)`, up to its wait. -/
def create (w : LocalWorld) (input : LocalCreateInput) : LocalCall :=
  match w.record with
  | some existing => if existing.status = .running then .done else .resuming existing false
  | none => .allocating input

/-- `get(name, opts)`, up to its wait. -/
def get (w : LocalWorld) (resume callback : Bool) : LocalCall :=
  match w.record with
  | some record => if resume ∧ record.status ≠ .running then .resuming record callback else .done
  | none => .done

/-- A call up to where it waits first. -/
def accept (w : LocalWorld) : LocalInput → LocalWorld × LocalCall
  | .create input => (w, w.create input)
  | .get resume callback => (w, w.get resume callback)
  | .runDetached pid now => (w.runDetached pid now, .done)
  | .extendTimeout ms now => (w.extendTimeout ms now, .done)
  | .stop => w.stop
  | .snapshot => (w, .snapshotting false)
  | .delete => (w, if w.record.isSome then .terminating .delete else .done)
  | .waitCommand cmdId => (w, w.waitCommand cmdId)
  | .deleteSnapshot snapshotId => (w.deleteSnapshot snapshotId, .done)

/-- `startSession(record); writeRecord(record);`, and the call of `opts.onResume`. -/
def resumed (w : LocalWorld) (record : LocalSandboxRecord) (callback : Bool) (now : Int) : LocalWorld :=
  let w' := w.writeRecord (record.startSession now) (.started callback now)
  if callback then { w' with log := w'.log ++ [.onResume] } else w'

/-- `const current = this.record();` and what is made of it; without a record the call fails. -/
def editCurrent (w : LocalWorld) (change : RecordEdit) (after : LocalCall) : LocalWorld × LocalCall :=
  match w.record with
  | some current => (w.edit current change, after)
  | none => (w, .done)

/-- The end of `waitCommand` for a command that an earlier process started. -/
def waited (w : LocalWorld) (cmdId : Text) : LocalWorld :=
  match w.record with
  | some current =>
    if (current.command cmdId).any fun entry => entry.exitCode = none then w.edit current (.exited cmdId (-1)) else w
  | none => w

/-- A call from its wait to the next; no result for an answer to another wait. -/
def next (w : LocalWorld) : LocalCall → LocalAnswer → Option (LocalWorld × LocalCall)
  | .resuming record callback, .restored now => some (w.resumed record callback now, .done)
  | .resuming _ _, .failed => some (w, .done)
  | .allocating input, .allocated portMap internal now =>
    let record := LocalSandboxRecord.created input portMap internal now
    some (w.writeRecord record (.created record), .done)
  | .allocating _, .failed => some (w, .done)
  | .terminating .stop, .terminated alive => some (w.editCurrent (.terminated alive) (.snapshotting true))
  | .terminating .delete, .terminated alive => some (w.editCurrent (.terminated alive) .deleting)
  | .snapshotting stop, .archived snapshotId =>
    some (w.editCurrent (.snapshotted snapshotId) (if stop then .stopping else .done))
  | .snapshotting _, .failed => some (w, .done)
  | .stopping, .returned => some (w.editCurrent .stopped .done)
  | .deleting, .returned => some ({ w with record := none, live := [], log := w.log ++ [.wrote .deleted] }, .done)
  | .waiting cmdId, .exited => some (w.waited cmdId, .done)
  | .waiting _, .failed => some (w, .done)
  | _, _ => none

/-- The handlers of a child's events; a child exits once, and may report an error before. -/
def child (w : LocalWorld) : ChildEvent → LocalWorld
  | .exit cmdId exitCode =>
    if cmdId ∈ w.children then
      let w' := match w.record with
        | some current => if (current.command cmdId).isSome then w.edit current (.exited cmdId exitCode) else w
        | none => w
      { w' with children := w.children.erase cmdId, live := w.live.filter (· ≠ cmdId) }
    else w
  | .error cmdId => if cmdId ∈ w.children then { w with live := w.live.filter (· ≠ cmdId) } else w

end LocalWorld

/-- The process: its calls, each under a number, and its children. -/
def localSandbox : Machine LocalWorld LocalCall LocalInput LocalAnswer ChildEvent where
  accept input w := some (w.accept input)
  next _ call answer w := (w.next call answer).map fun (w, call) => (w, call, none)
  halt _ := none
  env event w := w.child event

/-- A process that has just started: whatever record an earlier one left, and no children. -/
def LocalWorld.Fresh (w : LocalWorld) : Prop := w.children = [] ∧ w.live = [] ∧ w.log = []

def localSystem : System (Table LocalWorld LocalCall) (Event LocalInput LocalAnswer ChildEvent) :=
  localSandbox.system LocalWorld.Fresh

end Zedspaces.Web
