/-
The control plane as one machine: runs, `startLifecycle` calls, connect requests, sweep rows and
garbage-collection runs over the database, the platform and the clock. Answers are arbitrary: a call may
fail, a status may be wrong, a process may pause for ever between two of its steps. What a property
assumes of the answers it says itself.
-/
import Zedspaces.Lib.Processes
import Zedspaces.Lifecycle.Processes

namespace Zedspaces.Lifecycle

open Lib

/-- A process of the control plane. -/
inductive Proc where
  | run (r : Run)
  | call (c : StartCall)
  | request (r : Request)
  | reconcile (r : Reconcile)
  | gc (g : Gc)

/-- Where a body is with the child it starts or waits for. -/
def RestartPc.childPc : RestartPc → ChildPc
  | .stop c | .connect c => c

def RebuildPc.childPc : RebuildPc → Option ChildPc
  | .stop _ _ c => some c
  | .create _ _ c => some c
  | _ => none

def DeletePc.childPc : DeletePc → Option ChildPc
  | .stop _ c => some c
  | _ => none

def Body.childPc : Body → Option ChildPc
  | .restart pc => some pc.childPc
  | .rebuild pc => pc.childPc
  | .delete pc => pc.childPc
  | _ => none

namespace Proc

/-- Where the process is with the child it starts or waits for. -/
def childPc : Proc → Option ChildPc
  | .run r => match r.phase with
    | .body b => b.childPc
    | _ => none
  | .gc g => match g.pc with
    | .delete (_ :: _) _ c => some c
    | _ => none
  | _ => none

/-- The run the process has started as a parent and waits for. -/
def child? (p : Proc) : Option RunId := p.childPc.bind (·.run?)

/-- The workspaces the process has selected and whose deletion it may still have to start. -/
def held : Proc → List WsId
  | .gc g => g.pc.held
  | _ => []

/-- Started by a parent or by a `startLifecycle` call. -/
def starter (me : Pid) : Proc → Starter
  | .run _ | .gc _ => .parent me
  | .call _ | .request _ | .reconcile _ => .call me

/-- One step: the statement it performs, the process after it, and the run it starts. -/
def next (cfg : Config) (me : Pid) : Proc → Answer → World → Option (Stmt × Proc × Option Starts)
  | .run r, a, w => (r.next cfg a w).map fun (stmt, r', starts) =>
    (stmt, .run r', starts.map fun st => ⟨st.1, r.ws, st.2⟩)
  | .call c, a, w => (c.next cfg me a w).map fun (stmt, c, starts) => (stmt, .call c, starts)
  | .request r, a, w => (r.next cfg me a w).map fun (stmt, r, starts) => (stmt, .request r, starts)
  | .reconcile r, a, _ => (r.next a).map fun (stmt, r) => (stmt, .reconcile r, none)
  | .gc g, a, w => (g.next a w).map fun (stmt, g, starts) => (stmt, .gc g, starts)

end Proc

/-- What enters the control plane from outside: the requests of users, the cron jobs. -/
inductive Arrival where
  /-- `createPublicWorkspace`: reserves the row, then calls `startLifecycle` -/
  | create (id : WsId) (release : EditorRelease) (idleMinutes : Nat)
  /-- a route or the sweep calls `startLifecycle` -/
  | start (id : WsId) (input : Input)
  | connect (id : WsId) (reason : ConnectReason) (tabId : Nat) (clientBuild : Option String)
  /-- the sweep takes up a row that names a run -/
  | reconcile (id : WsId)
  /-- the nightly cron starts a gc run -/
  | gc

/-- What the routes and the sweep start; `createWorkspace` and `connectWorkspace` have arrivals of
their own. -/
def Input.startable : Input → Bool
  | .stopWorkspace _ child | .deleteWorkspace child => !child
  | .restartSession | .rebuildWorkspace _ => true
  | .createWorkspace _ | .connectWorkspace _ => false

def Arrival.accept (cfg : Config) (w : World) : Arrival → Option (Stmt × Proc)
  | .create id release idleMinutes =>
    if (w.rows id).isNone ∧ id ∉ w.ids ∧ hasCapacity cfg none w then
      some (.insertWorkspace id release idleMinutes, .call (.fresh id (.createWorkspace false)))
    else none
  | .start id input => if input.startable then some (.nothing, .call (.fresh id input)) else none
  | .connect id reason tabId clientBuild => some (.nothing, .request ⟨⟨id, reason, tabId, clientBuild⟩, .load⟩)
  | .reconcile id => (w.liveRow id).bind fun row => row.workflowRunId.map fun ref =>
    (.nothing, .reconcile ⟨⟨id, ref, row.workflowRunStartedAt.getD 0, w.now⟩, .status⟩)
  | .gc => some (.nothing, .gc ⟨w.now, .warnSelect⟩)

/-- A lifecycle run can be cut short (killed or lost); other processes simply stop taking steps. -/
def Proc.halt : Proc → Option Proc
  | .run r => if r.inFlight then some (.run { r with phase := .ended false }) else none
  | _ => none

/-- What happens by itself. -/
inductive Ambient where
  | tick (ms : Nat)
  | endSession (name : SandboxName) (status : EndedStatus)
  | boot (name : SandboxName) (checkout : Files)
  | edit (name : SandboxName) (files : Files)

def Ambient.stmt : Ambient → Stmt
  | .tick ms => .tick ms
  | .endSession name status => .endSession name status
  | .boot name checkout => .boot name checkout
  | .edit name files => .edit name files

abbrev Sys := Table World Proc
abbrev SysEvent := Event Arrival Answer Ambient

/-- The control plane. -/
def controlPlane (cfg : Config) : Machine World Proc Arrival Answer Ambient where
  accept i w := (i.accept cfg w).map fun (stmt, p) => (stmt.exec cfg w, p)
  next me p a w := (p.next cfg me a w).map fun (stmt, p', starts) =>
    (stmt.exec cfg w, p', starts.map fun st => (st.run, .run (.fresh st.ws st.input (p.starter me))))
  halt := Proc.halt
  env e w := e.stmt.exec cfg w

/-- The control plane with an empty database. -/
def lifecycle (cfg : Config) : System Sys SysEvent := (controlPlane cfg).system fun w => ∃ now, w = World.empty now

/-- The state at the start, at time `now`. -/
def Sys.start (now : Int) : Sys := ⟨World.empty now, []⟩

theorem lifecycle_init (cfg : Config) (now : Int) : (lifecycle cfg).init (Sys.start now) := ⟨⟨now, rfl⟩, rfl⟩

namespace Sys

/-- The run `n` of the workspace `id` is in flight. -/
def InFlight (s : Sys) (id : WsId) (n : RunId) : Prop := ∃ r, s.procs n = some (.run r) ∧ r.inFlight = true ∧ r.ws = id

/-- The run has ended, with the given success. -/
def Ended (s : Sys) (n : RunId) (ok : Bool) : Prop := ∃ r, s.procs n = some (.run r) ∧ r.phase = .ended ok

/-- A gc run has selected the workspace and may still have to start its deletion. -/
def Held (s : Sys) (id : WsId) : Prop := ∃ n p, s.procs n = some p ∧ id ∈ p.held

/-- The process that takes the step. -/
def acting (s : Sys) : SysEvent → Option Proc
  | .act n _ => s.procs n
  | _ => none

/-- The workspace whose deletion the gc run `n` starts with its next step. -/
def aboutToDelete (s : Sys) (n : Pid) : Option WsId := match s.procs n with
  | some (.gc g) => g.pc.aboutToDelete
  | _ => none

instance (s : Sys) (id : WsId) : Decidable (s.Held id) :=
  inferInstanceAs (Decidable (∃ n p, s.procs n = some p ∧ id ∈ p.held))

end Sys

/-- A workspace about to be deleted is held. -/
theorem Sys.held_of_aboutToDelete {s : Sys} {n : Pid} {id : WsId} (h : s.aboutToDelete n = some id) :
    ∃ p, s.procs n = some p ∧ id ∈ p.held := by
  unfold aboutToDelete at h
  split at h
  · rename_i g hp
    refine ⟨_, hp, ?_⟩
    unfold GcPc.aboutToDelete at h
    split at h
    · rename_i hpc
      cases h
      simp [Proc.held, GcPc.held, hpc, ChildPc.mayStart]
    · cases h
  · cases h

/-! ## What a step is -/

theorem controlPlane_next {cfg : Config} {me : Pid} {p p' : Proc} {a : Answer} {w w' : World} {st : Option (Nat × Proc)}
    (h : (controlPlane cfg).next me p a w = some (w', p', st)) :
    ∃ stmt starts, p.next cfg me a w = some (stmt, p', starts) ∧ w' = stmt.exec cfg w ∧
      st = starts.map fun s => (s.run, .run (.fresh s.ws s.input (p.starter me))) := by
  obtain ⟨⟨stmt, p'', starts⟩, hn, he⟩ := Option.map_eq_some_iff.1 h
  cases he
  exact ⟨stmt, starts, hn, rfl, rfl⟩

/-- A step of a process performs its statement. -/
theorem lifecycle_act {cfg : Config} {s s' : Sys} {n : Pid} {p : Proc} {a : Answer} (hp : s.procs n = some p)
    (h : (lifecycle cfg).step s (.act n a) = some s') :
    ∃ stmt p' starts, p.next cfg n a s.world = some (stmt, p', starts) ∧ s'.world = stmt.exec cfg s.world := by
  have hs : (controlPlane cfg).Steps s (.act n a) s' := Machine.steps_of_step h
  cases hs with
  | act hp' ha hfree =>
    rw [hp, Option.some.injEq] at hp'
    subst hp'
    obtain ⟨stmt, starts, hn, rfl, rfl⟩ := controlPlane_next ha
    exact ⟨stmt, _, starts, hn, Table.after_world ..⟩

theorem controlPlane_accept {cfg : Config} {i : Arrival} {w w' : World} {p : Proc}
    (h : (controlPlane cfg).accept i w = some (w', p)) :
    ∃ stmt, i.accept cfg w = some (stmt, p) ∧ w' = stmt.exec cfg w := by
  obtain ⟨⟨stmt, p'⟩, ha, he⟩ := Option.map_eq_some_iff.1 h
  cases he
  exact ⟨stmt, ha, rfl⟩

/-- A process arrives at its first step; only a reservation performs a statement. -/
theorem Arrival.accept_cases {cfg : Config} {i : Arrival} {w : World} {stmt : Stmt} {p : Proc}
    (h : i.accept cfg w = some (stmt, p)) :
    (∃ id release idle, i = .create id release idle ∧ w.rows id = none ∧ stmt = .insertWorkspace id release idle ∧
      p = .call (.fresh id (.createWorkspace false))) ∨
    (stmt = .nothing ∧ ((∃ id input, input.startable = true ∧ p = .call (.fresh id input)) ∨
      (∃ input, p = .request ⟨input, .load⟩) ∨ (∃ row, p = .reconcile ⟨row, .status⟩) ∨ p = .gc ⟨w.now, .warnSelect⟩)) := by
  cases i with
  | create id release idle =>
    simp only [accept] at h
    split at h
    · rename_i hc
      cases h
      exact .inl ⟨id, release, idle, rfl, by simpa using hc.1, rfl, rfl⟩
    · cases h
  | start id input =>
    simp only [accept] at h
    split at h
    · rename_i hc
      cases h
      exact .inr ⟨rfl, .inl ⟨id, input, hc, rfl⟩⟩
    · cases h
  | connect id reason tabId clientBuild =>
    cases h
    exact .inr ⟨rfl, .inr (.inl ⟨_, rfl⟩)⟩
  | reconcile id =>
    obtain ⟨row, -, h⟩ := Option.bind_eq_some_iff.1 h
    obtain ⟨ref, -, h⟩ := Option.map_eq_some_iff.1 h
    cases h
    exact .inr ⟨rfl, .inr (.inr (.inl ⟨_, rfl⟩))⟩
  | gc =>
    cases h
    exact .inr ⟨rfl, .inr (.inr (.inr rfl))⟩

/-! ## Pieces of runs -/

/-- A deployment with a retention of 30 days. -/
def deployment : Config := ⟨30, 10, 14400000, 8443, 8448, [8450], []⟩

/-- Its editor release. -/
def oldRelease : EditorRelease := ⟨"image-1", "server-1", "dev-1"⟩

/-- The supervisor answers ready. -/
def ready : Answer := .probe (some ⟨true, false, true, "ready", none⟩)

/-- `n` steps of the process whose calls all succeed. -/
def steps (pid : Pid) (n : Nat) : List SysEvent := List.replicate n (.act pid .ok)

/-- A `startLifecycle` call that finds no run and starts `run`, from its lock to its release. -/
def startsRun (call : CallId) (run : RunId) : List SysEvent :=
  steps call 3 ++ [.act call (.started run)] ++ steps call 2

/-- A new workspace up to its first editor state: `createWorkspace` from the request to its end. -/
def createsWorkspace (id : WsId) (call : CallId) (run : RunId) (checkout : Files) : List SysEvent :=
  [.arrive call (.create id oldRelease 30)] ++ startsRun call run ++ steps run 5 ++
    [.act run (.cmd run), .env (.boot (newSandboxName id 1) checkout), .act run ready] ++ steps run 2

/-- A run of `stopWorkspace` on a running workspace with a known supervisor. -/
def stops (id : WsId) (call : CallId) (run : RunId) : List SysEvent :=
  [.arrive call (.start id (.stopWorkspace .user false))] ++ startsRun call run ++ steps run 3 ++
    [.act run (.exit (some 0)), .act run (.snapshot none)] ++ steps run 3

end Zedspaces.Lifecycle
