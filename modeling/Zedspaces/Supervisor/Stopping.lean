/-
The status of the agent and its four writers: the boot, the activity relay, the supervision of the server and the
lifecycle commands. Only the boot sets `stopping`, but it neither waits for the others nor do they look before they write:
a task that has decided to write `degraded` or `ready` does so whatever the status has become in between
(`leaves_stopping`), and a stop during the post-create commands makes them fail and the agent `degraded`. Where the boot
stops while no task is about to write, and nothing goes wrong afterwards, the status stays (`stopping_absorbing`).
-/
import Zedspaces.Lib.System

namespace Zedspaces.Supervisor

open Lib Lib.System

inductive HealthStatus where
  | booting
  | ready
  | degraded
  | stopping
  deriving DecidableEq, Repr

/-! ## Where the tasks are -/

/-- `Boot::run`, with `fetch_manifest`, `spawn_server` and `finish`. -/
inductive BootPc where
  | manifest
  | buildMismatch
  | relay
  | checkout
  | checkoutFailed
  | devcontainer
  | devcontainerFailed
  | server
  | waitForServer
  | readStatus
  | serverReady
  | serverNotReady
  | checkShutdown
  | stoppedEarly
  | services
  | lifecycle
  | waitForShutdown
  | shutdownRequested
  | joinLifecycle
  | finish
  | cancelToken
  | stopChild
  | abortTasks
  | finished
  | failed
  deriving DecidableEq

/-- `ActivityRelay::run`. -/
inductive RelayPc where
  | select
  | pollServerHealth
  | ping
  | rejected
  | stopDirective
  | reapPostAttach
  | done
  deriving DecidableEq

/-- `Supervisor::run`. -/
inductive ServerPc where
  | loop (first : Bool)
  | clearStaleServer
  | beforeRespawn
  | spawn
  | spawnFailed
  | spawned
  | reap
  | superviseChild
  | exited
  | crashed
  | crashLoop
  | pause
  | done
  deriving DecidableEq

/-- The task of `spawn_lifecycle`. -/
inductive LifecyclePc where
  | dotfiles
  | afterDotfiles
  | postCreate
  | sequence
  | sequenceFailed
  | afterPostCreate
  | postStart
  | afterPostStart
  | forwards
  | readStatus
  | sawBooting
  | done
  deriving DecidableEq

/-- The points at which a task waits, where `abort` ends it. -/
def RelayPc.awaits : RelayPc → Bool
  | .select | .pollServerHealth | .ping | .reapPostAttach => true
  | _ => false

def ServerPc.awaits : ServerPc → Bool
  | .clearStaleServer | .reap | .superviseChild | .pause => true
  | _ => false

def LifecyclePc.awaits : LifecyclePc → Bool
  | .dotfiles | .sequence | .postStart | .forwards => true
  | _ => false

/-- The status, the shutdown token, the tasks (`none` before they are spawned) and what the relay and the supervision
remember between rounds: whether a 401 was seen, and when the server exited, in milliseconds. -/
structure Agent where
  status : HealthStatus
  cancelled : Bool
  boot : BootPc
  relay : Option RelayPc
  server : Option ServerPc
  lifecycle : Option LifecyclePc
  tasksAborted : Bool
  lifecycleAborted : Bool
  unauthorized : Bool
  exits : List Nat

def Agent.new : Agent where
  status := .booting
  cancelled := false
  boot := .manifest
  relay := none
  server := none
  lifecycle := none
  tasksAborted := false
  lifecycleAborted := false
  unauthorized := false
  exits := []

@[simp] def Agent.setStatus (s : Agent) (status : HealthStatus) : Agent := { s with status }

@[simp] def Agent.setBoot (s : Agent) (pc : BootPc) : Agent := { s with boot := pc }

@[simp] def Agent.setRelay (s : Agent) (pc : RelayPc) : Agent := { s with relay := some pc }

@[simp] def Agent.setServer (s : Agent) (pc : ServerPc) : Agent := { s with server := some pc }

@[simp] def Agent.setLifecycle (s : Agent) (pc : LifecyclePc) : Agent := { s with lifecycle := some pc }

/-! ## Their steps -/

/-- How what the boot waits for turns out. -/
inductive BootInput where
  | ok
  | mismatch
  | failed
  | cancelled

/-- One access of `Boot::run` to the status or the token, or one wait. -/
def Agent.bootNext (s : Agent) : BootPc → BootInput → Option Agent
  | .manifest, .ok => some (s.setBoot .relay)
  | .manifest, .mismatch => some (s.setBoot .buildMismatch)
  | .manifest, .failed => some (s.setBoot .finish)
  | .buildMismatch, .failed => some ((s.setStatus .degraded).setBoot .finish)
  | .buildMismatch, _ => some ((s.setStatus .degraded).setBoot .relay)
  | .relay, _ => some ((s.setRelay .select).setBoot .checkout)
  | .checkout, .ok => some (s.setBoot .devcontainer)
  | .checkout, .failed => some (s.setBoot .checkoutFailed)
  | .checkout, .cancelled => if s.cancelled then some (s.setBoot .finish) else none
  | .checkoutFailed, _ => some ((s.setStatus .degraded).setBoot .finish)
  | .devcontainer, .ok => some (s.setBoot .server)
  | .devcontainer, .failed => some (s.setBoot .devcontainerFailed)
  | .devcontainerFailed, _ => some ((s.setStatus .degraded).setBoot .server)
  | .server, .ok => some ((s.setServer (.loop true)).setBoot .waitForServer)
  | .server, .failed => some (s.setBoot .failed)
  | .waitForServer, .ok => some (s.setBoot .readStatus)
  | .waitForServer, .failed => some (s.setBoot .serverNotReady)
  | .waitForServer, .cancelled => if s.cancelled then some (s.setBoot .checkShutdown) else none
  | .readStatus, _ => some (s.setBoot (if s.status = .degraded then .checkShutdown else .serverReady))
  | .serverReady, _ => some ((s.setStatus .ready).setBoot .checkShutdown)
  | .serverNotReady, _ => some ((s.setStatus .degraded).setBoot .checkShutdown)
  | .checkShutdown, _ => some (s.setBoot (if s.cancelled then .stoppedEarly else .services))
  | .stoppedEarly, _ => some ((s.setStatus .stopping).setBoot .finish)
  | .services, _ => some (s.setBoot .lifecycle)
  | .lifecycle, _ => some ((s.setLifecycle .dotfiles).setBoot .waitForShutdown)
  | .waitForShutdown, _ => if s.cancelled then some (s.setBoot .shutdownRequested) else none
  | .shutdownRequested, _ => some ((s.setStatus .stopping).setBoot .joinLifecycle)
  | .joinLifecycle, .ok => if s.lifecycle = some .done then some (s.setBoot .finish) else none
  -- the grace is over: the task is aborted
  | .joinLifecycle, .failed => some ({ s with lifecycleAborted := true }.setBoot .finish)
  | .finish, _ => some ((s.setStatus .stopping).setBoot .cancelToken)
  | .cancelToken, _ => some ({ s with cancelled := true }.setBoot .stopChild)
  | .stopChild, _ => some (s.setBoot .abortTasks)
  | .abortTasks, _ => some ({ s with tasksAborted := true }.setBoot .finished)
  | _, _ => none

/-- What wakes the relay, and the outcomes of a ping. -/
inductive RelayInput where
  | tick
  | cancelled
  | continue
  | unauthorized
  | retired
  | stop

def Agent.relayNext (s : Agent) : RelayPc → RelayInput → Option Agent
  | .select, .tick => some (s.setRelay .pollServerHealth)
  | .select, .cancelled => if s.cancelled then some (s.setRelay .reapPostAttach) else none
  | .pollServerHealth, _ => some (s.setRelay .ping)
  | .ping, .continue => some (s.setRelay .select)
  | .ping, .unauthorized =>
    if s.unauthorized then some (s.setRelay .select) else some ({ s with unauthorized := true }.setRelay .rejected)
  | .ping, .retired => some (s.setRelay .reapPostAttach)
  | .ping, .stop => some (s.setRelay .stopDirective)
  | .rejected, _ => some ((s.setStatus .degraded).setRelay .select)
  | .stopDirective, _ => some ({ s with cancelled := true }.setRelay .reapPostAttach)
  | .reapPostAttach, _ => some (s.setRelay .done)
  | _, _ => none

def CRASH_LOOP_LIMIT : Nat × Nat := (6, 600000)

/-- The exits within the limit's window, with one now. -/
def recentExits (exits : List Nat) (now : Nat) : List Nat :=
  (exits ++ [now]).dropWhile fun at_ => CRASH_LOOP_LIMIT.2 < now - at_

inductive ServerInput where
  | ok
  | failed
  | cancelled
  | at (now : Nat)

def Agent.serverNext (s : Agent) : ServerPc → ServerInput → Option Agent
  | .loop first, _ => some (s.setServer (if s.cancelled then .done else if first then .spawn else .clearStaleServer))
  | .clearStaleServer, _ => some (s.setServer .beforeRespawn)
  | .beforeRespawn, _ => some (s.setServer (if s.cancelled then .done else .spawn))
  | .spawn, .ok => some (s.setServer .spawned)
  | .spawn, .failed => some (s.setServer .spawnFailed)
  | .spawnFailed, _ => some ((s.setStatus .degraded).setServer .pause)
  | .spawned, _ => some (s.setServer (if s.cancelled then .reap else .superviseChild))
  | .reap, _ => some (s.setServer .done)
  | .superviseChild, _ => some (s.setServer .exited)
  -- `stopping` is read here, once
  | .exited, _ => some (s.setServer (if s.cancelled then .done else .crashed))
  | .crashed, .at now =>
    let exits := recentExits s.exits now
    some ({ s with exits }.setServer (if CRASH_LOOP_LIMIT.1 ≤ exits.length then .crashLoop else .pause))
  | .crashLoop, _ => some ((s.setStatus .degraded).setServer .done)
  | .pause, .ok => some (s.setServer (.loop false))
  | .pause, .cancelled => if s.cancelled then some (s.setServer .done) else none
  | _, _ => none

/-- How a command or a request of the lifecycle task turns out; `skip` where there is nothing to run. -/
inductive LifecycleInput where
  | ok
  | failed
  | skip

def Agent.lifecycleNext (s : Agent) : LifecyclePc → LifecycleInput → Option Agent
  | .dotfiles, _ => some (s.setLifecycle .afterDotfiles)
  | .afterDotfiles, _ => some (s.setLifecycle (if s.cancelled then .done else .postCreate))
  | .postCreate, .skip => some (s.setLifecycle .afterPostCreate)
  | .postCreate, .ok => some (s.setLifecycle .sequence)
  | .sequence, .ok => some (s.setLifecycle .afterPostCreate)
  -- a stage failed, ran out of time or was killed because of the token
  | .sequence, .failed => some (s.setLifecycle .sequenceFailed)
  | .sequenceFailed, _ => some ((s.setStatus .degraded).setLifecycle .afterPostCreate)
  | .afterPostCreate, _ => some (s.setLifecycle (if s.cancelled then .done else .postStart))
  | .postStart, _ => some (s.setLifecycle .afterPostStart)
  | .afterPostStart, _ => some (s.setLifecycle (if s.cancelled then .done else .forwards))
  | .forwards, _ => some (s.setLifecycle .readStatus)
  | .readStatus, _ => some (s.setLifecycle (if s.status = .booting then .sawBooting else .done))
  | .sawBooting, _ => some ((s.setStatus .ready).setLifecycle .done)
  | _, _ => none

/-- A task steps, or the process is sent a `SIGTERM`. -/
inductive AgentEvent where
  | boot (input : BootInput)
  | relay (input : RelayInput)
  | server (input : ServerInput)
  | lifecycle (input : LifecycleInput)
  | sigterm

/-- A step of a task that may have been aborted: an aborted task ends where it waits. -/
def Agent.step (s : Agent) : AgentEvent → Option Agent
  | .boot input => s.bootNext s.boot input
  | .relay input => s.relay.bind fun pc =>
    if s.tasksAborted && pc.awaits then some (s.setRelay .done) else s.relayNext pc input
  | .server input => s.server.bind fun pc =>
    if s.tasksAborted && pc.awaits then some (s.setServer .done) else s.serverNext pc input
  | .lifecycle input => s.lifecycle.bind fun pc =>
    if s.lifecycleAborted && pc.awaits then some (s.setLifecycle .done) else s.lifecycleNext pc input
  | .sigterm => some { s with cancelled := true }

/-- The agent from the start of its boot. -/
def agent : System Agent AgentEvent where
  init s := s = .new
  step := Agent.step

/-! ## What a task is bound to write -/

def RelayPc.Committed (pc : RelayPc) : Prop := pc = .rejected

def ServerPc.Committed (pc : ServerPc) : Prop := pc = .spawnFailed ∨ pc = .crashLoop

def LifecyclePc.Committed (pc : LifecyclePc) : Prop := pc = .sequenceFailed ∨ pc = .sawBooting

instance (pc : RelayPc) : Decidable pc.Committed := inferInstanceAs (Decidable (_ = _))
instance (pc : ServerPc) : Decidable pc.Committed := inferInstanceAs (Decidable (_ ∨ _))
instance (pc : LifecyclePc) : Decidable pc.Committed := inferInstanceAs (Decidable (_ ∨ _))

/-- Some task writes the status with its next step, whatever the status is. -/
def Agent.Committed (s : Agent) : Prop :=
  (∃ pc ∈ s.relay, pc.Committed) ∨ (∃ pc ∈ s.server, pc.Committed) ∨ ∃ pc ∈ s.lifecycle, pc.Committed

instance (s : Agent) : Decidable s.Committed := inferInstanceAs (Decidable (_ ∨ _ ∨ _))

/-- The steps of the boot that set `stopping`. -/
def BootPc.Stops (pc : BootPc) : Prop := pc = .stoppedEarly ∨ pc = .shutdownRequested ∨ pc = .finish

/-- From `finish` on, or while the boot waits for the lifecycle commands after the stop. -/
def BootPc.Late (pc : BootPc) : Prop :=
  pc = .joinLifecycle ∨ pc = .finish ∨ pc = .cancelToken ∨ pc = .stopChild ∨ pc = .abortTasks ∨ pc = .finished

instance (pc : BootPc) : Decidable pc.Stops := inferInstanceAs (Decidable (_ ∨ _ ∨ _))
instance (pc : BootPc) : Decidable pc.Late := inferInstanceAs (Decidable (_ ∨ _ ∨ _ ∨ _ ∨ _ ∨ _))

/-- What goes wrong in a task: its first 401, a server that cannot be spawned or crashed too often, post-create commands
that fail. -/
def Agent.GoesWrong (s : Agent) : AgentEvent → Prop
  | .relay .unauthorized => s.relay = some .ping ∧ s.tasksAborted = false ∧ s.unauthorized = false
  | .server .failed => s.server = some .spawn
  | .server (.at now) => s.server = some .crashed ∧ CRASH_LOOP_LIMIT.1 ≤ (recentExits s.exits now).length
  | .lifecycle .failed => s.lifecycle = some .sequence ∧ s.lifecycleAborted = false
  | _ => False

/-- The boot sets `stopping` while no task is about to write, and after that nothing goes wrong. -/
def Agent.StopsQuietly (s : Agent) : AgentEvent → Prop
  | .boot _ => s.boot.Stops → ¬ s.Committed
  | e => s.status = .stopping → ¬ s.GoesWrong e

instance (s : Agent) : (e : AgentEvent) → Decidable (s.GoesWrong e)
  | .relay .unauthorized => inferInstanceAs (Decidable (_ ∧ _ ∧ _))
  | .relay .tick | .relay .cancelled | .relay .continue | .relay .retired | .relay .stop => instDecidableFalse
  | .server .failed => inferInstanceAs (Decidable (_ = _))
  | .server (.at _) => inferInstanceAs (Decidable (_ ∧ _))
  | .server .ok | .server .cancelled => instDecidableFalse
  | .lifecycle .failed => inferInstanceAs (Decidable (_ ∧ _))
  | .lifecycle .ok | .lifecycle .skip => instDecidableFalse
  | .boot _ | .sigterm => instDecidableFalse

instance (s : Agent) : (e : AgentEvent) → Decidable (s.StopsQuietly e)
  | .boot _ => inferInstanceAs (Decidable (_ → ¬ _))
  | .relay input => inferInstanceAs (Decidable (_ → ¬ s.GoesWrong (.relay input)))
  | .server input => inferInstanceAs (Decidable (_ → ¬ s.GoesWrong (.server input)))
  | .lifecycle input => inferInstanceAs (Decidable (_ → ¬ s.GoesWrong (.lifecycle input)))
  | .sigterm => inferInstanceAs (Decidable (_ → ¬ s.GoesWrong .sigterm))

/-! ## What one step does -/

variable {s t : Agent}

/-- A step of the boot sets `stopping`, leaves the status, or writes something else before the boot is late. -/
theorem bootNext_status {pc : BootPc} {input : BootInput} (h : s.bootNext pc input = some t) :
    (pc.Stops ∧ t.status = .stopping ∧ t.boot.Late) ∨ (t.status = s.status ∧ (pc.Late → t.boot.Late)) ∨
      (t.status ≠ .stopping ∧ ¬ pc.Late) := by
  unfold BootPc.Stops BootPc.Late
  revert h
  fun_cases Agent.bootNext s pc input <;> rintro ⟨⟩ <;> simp

/-- The tasks it spawns have nothing to write yet. -/
theorem bootNext_committed {pc : BootPc} {input : BootInput} (h : s.bootNext pc input = some t) (ht : t.Committed) :
    s.Committed := by
  revert h ht
  unfold Agent.Committed RelayPc.Committed ServerPc.Committed LifecyclePc.Committed
  fun_cases Agent.bootNext s pc input <;> rintro ⟨⟩ <;> simp +contextual
  · rintro (hr | hl)
    · exact .inl hr
    · exact .inr (.inr hl)
  · rintro (hr | hs)
    · exact .inl hr
    · exact .inr (.inl hs)

theorem relayNext_spec {pc : RelayPc} {input : RelayInput} (h : s.relayNext pc input = some t) :
    ∃ pc', t = { t with boot := s.boot, relay := some pc', server := s.server, lifecycle := s.lifecycle } ∧
      (t.status = s.status ∨ pc.Committed ∧ t.status ≠ .stopping) ∧
      (pc'.Committed → pc = .ping ∧ input = .unauthorized ∧ s.unauthorized = false) := by
  unfold RelayPc.Committed
  revert h
  fun_cases Agent.relayNext s pc input <;> rintro ⟨⟩ <;> simp_all

theorem serverNext_spec {pc : ServerPc} {input : ServerInput} (h : s.serverNext pc input = some t) :
    ∃ pc', t = { t with boot := s.boot, relay := s.relay, server := some pc', lifecycle := s.lifecycle } ∧
      (t.status = s.status ∨ pc.Committed ∧ t.status ≠ .stopping) ∧
      (pc'.Committed → (pc = .spawn ∧ input = .failed) ∨
        ∃ now, pc = .crashed ∧ input = .at now ∧ CRASH_LOOP_LIMIT.1 ≤ (recentExits s.exits now).length) := by
  unfold ServerPc.Committed
  revert h
  fun_cases Agent.serverNext s pc input
  -- the window of the last exits
  case case11 now exits =>
    rintro ⟨⟩
    refine ⟨_, rfl, .inl rfl, ?_⟩
    split
    · next hfull => exact fun _ => .inr ⟨now, rfl, rfl, hfull⟩
    · rintro (h | h) <;> cases h
  case case5 => rintro ⟨⟩; exact ⟨_, rfl, .inl rfl, fun _ => .inl ⟨rfl, rfl⟩⟩
  all_goals rintro ⟨⟩ <;> refine ⟨_, rfl, by simp, ?_⟩
  all_goals
    repeat' split
    all_goals rintro (h | h) <;> cases h

theorem lifecycleNext_spec {pc : LifecyclePc} {input : LifecycleInput} (h : s.lifecycleNext pc input = some t) :
    ∃ pc', t = { t with boot := s.boot, relay := s.relay, server := s.server, lifecycle := some pc' } ∧
      (t.status = s.status ∨ pc.Committed ∧ t.status ≠ .stopping) ∧
      (pc'.Committed → (pc = .sequence ∧ input = .failed) ∨ s.status = .booting) := by
  unfold LifecyclePc.Committed
  revert h
  fun_cases Agent.lifecycleNext s pc input <;> rintro ⟨⟩ <;> simp <;> repeat' split
  all_goals simp_all

/-- A step of another task leaves the boot alone and the status too, unless the task was about to write it. It is about
to write after something went wrong, or after it read `booting`. -/
structure TaskStep (s : Agent) (e : AgentEvent) (t : Agent) : Prop where
  boot : t.boot = s.boot
  status : t.status = s.status ∨ s.Committed ∧ t.status ≠ .stopping
  committed : t.Committed → s.Committed ∨ s.GoesWrong e ∨ s.status = .booting

theorem relay_step {input : RelayInput} (h : s.step (.relay input) = some t) : TaskStep s (.relay input) t := by
  obtain ⟨pc, hpc, h⟩ := Option.bind_eq_some_iff.1 h
  split at h
  · cases h
    refine ⟨rfl, .inl rfl, ?_⟩
    rintro (⟨_, ⟨⟩, ⟨⟩⟩ | hs)
    exact .inl (.inr hs)
  next ha =>
  obtain ⟨pc', ht, hstatus, hc⟩ := relayNext_spec h
  refine ⟨by rw [ht], hstatus.imp_right fun hw => ⟨.inl ⟨pc, hpc, hw.1⟩, hw.2⟩, ?_⟩
  rw [ht]
  rintro (⟨_, ⟨⟩, hpc'⟩ | hs)
  · obtain ⟨rfl, rfl, hu⟩ := hc hpc'
    exact .inr (.inl ⟨hpc, by simpa [RelayPc.awaits] using ha, hu⟩)
  · exact .inl (.inr hs)

theorem server_step {input : ServerInput} (h : s.step (.server input) = some t) : TaskStep s (.server input) t := by
  obtain ⟨pc, hpc, h⟩ := Option.bind_eq_some_iff.1 h
  split at h
  · cases h
    refine ⟨rfl, .inl rfl, ?_⟩
    rintro (hr | ⟨_, ⟨⟩, hd⟩ | hl)
    · exact .inl (.inl hr)
    · simp [ServerPc.Committed] at hd
    · exact .inl (.inr (.inr hl))
  obtain ⟨pc', ht, hstatus, hc⟩ := serverNext_spec h
  refine ⟨by rw [ht], hstatus.imp_right fun hw => ⟨.inr (.inl ⟨pc, hpc, hw.1⟩), hw.2⟩, ?_⟩
  rw [ht]
  rintro (hr | ⟨_, ⟨⟩, hpc'⟩ | hl)
  · exact .inl (.inl hr)
  · obtain ⟨rfl, rfl⟩ | ⟨now, rfl, rfl, hloop⟩ := hc hpc'
    · exact .inr (.inl hpc)
    · exact .inr (.inl ⟨hpc, hloop⟩)
  · exact .inl (.inr (.inr hl))

theorem lifecycle_step {input : LifecycleInput} (h : s.step (.lifecycle input) = some t) :
    TaskStep s (.lifecycle input) t := by
  obtain ⟨pc, hpc, h⟩ := Option.bind_eq_some_iff.1 h
  split at h
  · cases h
    refine ⟨rfl, .inl rfl, ?_⟩
    rintro (hr | hs | ⟨_, ⟨⟩, hd⟩)
    · exact .inl (.inl hr)
    · exact .inl (.inr (.inl hs))
    · simp [LifecyclePc.Committed] at hd
  next ha =>
  obtain ⟨pc', ht, hstatus, hc⟩ := lifecycleNext_spec h
  refine ⟨by rw [ht], hstatus.imp_right fun hw => ⟨.inr (.inr ⟨pc, hpc, hw.1⟩), hw.2⟩, ?_⟩
  rw [ht]
  rintro (hr | hs | ⟨_, ⟨⟩, hpc'⟩)
  · exact .inl (.inl hr)
  · exact .inl (.inr (.inl hs))
  · obtain ⟨rfl, rfl⟩ | hbooting := hc hpc'
    · exact .inr (.inl ⟨hpc, by simpa [LifecyclePc.awaits] using ha⟩)
    · exact .inr (.inr hbooting)

/-! ## Stopping -/

/-- Once the status is `stopping` the boot is late and no task is about to write. -/
def Agent.StopInv (s : Agent) : Prop := s.status = .stopping → s.boot.Late ∧ ¬ s.Committed

/-- A task other than the boot keeps what holds of a stop, and the stop itself. -/
theorem TaskStep.stop {e : AgentEvent} (ht : TaskStep s e t) (hi : s.StopInv)
    (hg : s.status = .stopping → ¬ s.GoesWrong e) :
    t.StopInv ∧ (s.status = .stopping → t.status = .stopping) := by
  have hback : t.status = .stopping → s.status = .stopping := by
    intro hstop
    rcases ht.status with hsame | ⟨-, hne⟩
    · rwa [hsame] at hstop
    · exact absurd hstop hne
  constructor
  · intro hstop
    have hs : s.status = .stopping := hback hstop
    obtain ⟨hlate, hquiet⟩ := hi hs
    rw [ht.boot]
    refine ⟨hlate, fun hc => ?_⟩
    rcases ht.committed hc with hc | hw | hbooting
    · exact hquiet hc
    · exact hg hs hw
    · rw [hs] at hbooting
      cases hbooting
  · intro hs
    rcases ht.status with hsame | ⟨hc, -⟩
    · rw [hsame, hs]
    · exact absurd hc (hi hs).2

theorem step_stop {e : AgentEvent} (h : s.step e = some t) (hi : s.StopInv) (hg : s.StopsQuietly e) :
    t.StopInv ∧ (s.status = .stopping → t.status = .stopping) := by
  cases e with
  | boot input =>
    have hc : t.Committed → s.Committed := bootNext_committed h
    rcases bootNext_status h with ⟨hstops, hstatus, hlate⟩ | ⟨hsame, hlate⟩ | ⟨hne, hearly⟩
    · exact ⟨fun _ => ⟨hlate, fun ht => hg hstops (hc ht)⟩, fun _ => hstatus⟩
    · rw [Agent.StopInv, hsame]
      exact ⟨fun hs => ⟨hlate (hi hs).1, fun ht => (hi hs).2 (hc ht)⟩, id⟩
    · exact ⟨fun ht => absurd ht hne, fun hs => absurd (hi hs).1 hearly⟩
  | relay input => exact (relay_step h).stop hi hg
  | server input => exact (server_step h).stop hi hg
  | lifecycle input => exact (lifecycle_step h).stop hi hg
  | sigterm =>
    cases h
    exact ⟨hi, id⟩

theorem reach_stopInv (h : agent.Reach Agent.StopsQuietly s) : s.StopInv := by
  refine h.invariant ?_ fun s e t _ hi hg hst => (step_stop hst hi hg).1
  rintro s rfl hs
  cases hs

/-- Where the boot stops while no task is about to write the status and nothing goes wrong afterwards, the status stays
`stopping`. -/
theorem stopping_absorbing (hs : agent.Reach Agent.StopsQuietly s) (hstop : s.status = .stopping)
    (hrun : agent.Run Agent.StopsQuietly s t) : t.status = .stopping := by
  have h : agent.Reach Agent.StopsQuietly t ∧ t.status = .stopping := by
    refine hrun.invariant (I := fun u => agent.Reach Agent.StopsQuietly u ∧ u.status = .stopping) ?_ ⟨hs, hstop⟩
    rintro u e v ⟨hu, hstop⟩ hg hst
    exact ⟨hu.step hg hst, (step_stop hst (reach_stopInv hu) hg).2 hstop⟩
  exact h.2

/-- A first boot up to its post-create commands, a stop, and the rest of the boot. -/
def firstBoot : List AgentEvent :=
  List.replicate 11 (.boot .ok) ++ [.lifecycle .ok, .lifecycle .ok, .lifecycle .ok]

def stopRequest : List AgentEvent := [.sigterm, .boot .ok, .boot .ok]

def finishStop : List AgentEvent := List.replicate 5 (.boot .failed)

/-- A stop, after the lifecycle commands of a first boot have run, up to the end of the boot. -/
theorem stopping_absorbing_first_boot : ∃ s t, agent.Reach Agent.StopsQuietly s ∧ s.status = .stopping ∧
    agent.Run Agent.StopsQuietly s t ∧ t.boot = .finished ∧ t.status = .stopping := by
  obtain ⟨s, hs, hstop, hexecs, hexec⟩ := exists_reach_of_execs (S := agent) (G := Agent.StopsQuietly)
    (fun s => s.status = .stopping ∧ agent.execs Agent.StopsQuietly s finishStop = true ∧
      (agent.exec s finishStop).any (fun t => decide (t.boot = .finished)) = true)
    (firstBoot ++ [.lifecycle .ok, .lifecycle .ok, .lifecycle .ok] ++ stopRequest) rfl (by decide)
    (by decide)
  obtain ⟨t, ht, hfin⟩ := (Option.any_eq_true _ _).1 hexec
  have hrun : agent.Run Agent.StopsQuietly s t := run_of_execs hexecs ht
  exact ⟨s, t, hs, hstop, hrun, of_decide_eq_true hfin, stopping_absorbing hs hstop hrun⟩

/-- A stop during the post-create commands: they are killed, which counts as a failure. -/
theorem not_stopping_absorbing : ¬ ∀ s t, agent.Reach free s → s.status = .stopping → agent.Run free s t →
    t.status = .stopping := by
  intro h
  obtain ⟨s, hs, hstop, hexec⟩ := exists_reach_of_exec (S := agent)
    (fun s => s.status = .stopping ∧ (agent.exec s [.lifecycle .failed, .lifecycle .ok]).any
      (fun t => decide (t.status = .degraded)) = true) (firstBoot ++ stopRequest) rfl (by decide)
  obtain ⟨t, ht, hdegraded⟩ := (Option.any_eq_true _ _).1 hexec
  have hstays : t.status = .stopping := h s t hs hstop (run_of_exec ht)
  rw [of_decide_eq_true hdegraded] at hstays
  cases hstays

/-! ## The condition is needed -/

/-- A step that does not meet the condition leaves an agent that is stopping with a task about to write. -/
theorem committed_of_not_stopsQuietly {e : AgentEvent} (hg : ¬ s.StopsQuietly e) (h : s.step e = some t) :
    t.status = .stopping ∧ t.Committed := by
  cases e with
  | boot input =>
    obtain ⟨hstops, hc⟩ := not_forall.1 hg
    rw [not_not] at hc
    have h : s.bootNext s.boot input = some t := h
    rcases hstops with hpc | hpc | hpc <;> rw [hpc] at h <;> cases h <;> exact ⟨rfl, hc⟩
  | relay input =>
    obtain ⟨hstop, hw⟩ := not_forall.1 hg
    rw [not_not] at hw
    cases input <;> simp only [Agent.GoesWrong] at hw
    obtain ⟨hpc, ha, hu⟩ := hw
    simp [Agent.step, hpc, ha, Agent.relayNext, hu] at h
    subst h
    exact ⟨hstop, .inl ⟨_, rfl, rfl⟩⟩
  | server input =>
    obtain ⟨hstop, hw⟩ := not_forall.1 hg
    rw [not_not] at hw
    cases input <;> simp only [Agent.GoesWrong] at hw
    · simp [Agent.step, hw, Agent.serverNext, ServerPc.awaits] at h
      subst h
      exact ⟨hstop, .inr (.inl ⟨_, rfl, .inl rfl⟩)⟩
    · simp [Agent.step, hw, Agent.serverNext, ServerPc.awaits] at h
      subst h
      exact ⟨hstop, .inr (.inl ⟨_, rfl, .inr rfl⟩)⟩
  | lifecycle input =>
    obtain ⟨hstop, hw⟩ := not_forall.1 hg
    rw [not_not] at hw
    cases input <;> simp only [Agent.GoesWrong] at hw
    simp [Agent.step, hw, Agent.lifecycleNext] at h
    subst h
    exact ⟨hstop, .inr (.inr ⟨_, rfl, .inl rfl⟩)⟩
  | sigterm =>
    obtain ⟨-, hw⟩ := not_forall.1 hg
    exact absurd id hw

/-- A task that is about to write does so, and the status is then not `stopping`. -/
theorem leaves_stopping (hc : s.Committed) : ∃ e t, s.step e = some t ∧ t.status ≠ .stopping := by
  rcases hc with ⟨pc, hpc, rfl⟩ | ⟨pc, hpc, rfl | rfl⟩ | ⟨pc, hpc, rfl | rfl⟩
  · rw [Option.mem_def] at hpc
    exact ⟨.relay .tick, _, by simp [Agent.step, hpc, RelayPc.awaits, Agent.relayNext]; rfl, by simp⟩
  all_goals rw [Option.mem_def] at hpc
  · exact ⟨.server .ok, _, by simp [Agent.step, hpc, ServerPc.awaits, Agent.serverNext]; rfl, by simp⟩
  · exact ⟨.server .ok, _, by simp [Agent.step, hpc, ServerPc.awaits, Agent.serverNext]; rfl, by simp⟩
  · exact ⟨.lifecycle .ok, _, by simp [Agent.step, hpc, LifecyclePc.awaits, Agent.lifecycleNext]; rfl, by simp⟩
  · exact ⟨.lifecycle .ok, _, by simp [Agent.step, hpc, LifecyclePc.awaits, Agent.lifecycleNext]; rfl, by simp⟩

end Zedspaces.Supervisor
