/-
The end of a boot and the server's children. `Supervisor::run` spawns one child after the other on one task while
`finish` stops them from another; between them stand the shutdown token and the pid of the child at hand, which each
side reads before it acts. The token is cancelled before the pid is read, and a new child's pid is stored before the
token is looked at, so no order of the two leaves a child's process group alive (`no_orphans`), and no child that the
stop killed is reported as a crash.
-/
import Zedspaces.Lib.System

namespace Zedspaces.Supervisor.StopChild

open Lib

/-- A child: whether it has exited, whether a signal of the agent came before that, and whether its group was killed. -/
structure Child where
  pid : Nat
  exited : Bool
  signalled : Bool
  swept : Bool
  deriving DecidableEq

/-- Where `Supervisor::run` is; `stopping` is what it read of the token when its child was gone. -/
inductive RunPc where
  | head (first : Bool)
  | clearing
  | cleared
  | spawning
  | spawned
  | stored
  | killing
  | reaping
  | supervising
  | exited
  | observed (stopping : Bool)
  | zeroed (stopping : Bool)
  | swept (stopping : Bool)
  | pausing
  | ended
  deriving DecidableEq

/-- Where the task may be aborted. -/
def RunPc.awaits : RunPc → Bool
  | .clearing | .reaping | .supervising | .pausing => true
  | _ => false

/-- Where `finish` is, `stop_child` within it; `pid` is the one that was read. -/
inductive FinishPc where
  | idle
  | cancelling
  | loading
  | notifying (pid : Nat)
  | terminating (pid : Nat)
  | waiting (pid : Nat)
  | sweeping (pid : Nat)
  | rereading (pid : Nat)
  | resweeping (pid : Nat)
  | returned
  | done
  deriving DecidableEq

/-- `current` is the last child, `past` are those before it, and `crashes` those that were reported. -/
structure Agent where
  cancelled : Bool
  childPid : Nat
  current : Option Child
  past : List Child
  crashes : List Child
  run : RunPc
  finish : FinishPc
  aborting : Bool
  deriving DecidableEq

def Agent.new : Agent := ⟨false, 0, none, [], [], .head true, .idle, false⟩

inductive RunInput where
  | go
  | spawn (pid : Nat)
  | spawnFailed
  | crashLoop
  | timer

inductive AgentEvent where
  | cancel
  | exit
  | run (input : RunInput)
  | finish
  | abort

/-- The signal reaches the child, unless it is gone. -/
def Child.signal (c : Child) : Child := { c with signalled := c.signalled || !c.exited }

/-- `kill_group`; the groups of past children are gone. -/
def Agent.killGroup (s : Agent) (pid : Nat) : Agent :=
  { s with current := s.current.map fun c => if pid ≠ 0 ∧ c.pid = pid then { c.signal with swept := true } else c }

/-- `SIGTERM` to the child alone. -/
def Agent.terminate (s : Agent) (pid : Nat) : Agent :=
  { s with current := s.current.map fun c => if c.pid = pid then c.signal else c }

/-- The child at hand is done with. -/
def Agent.retire (s : Agent) : Agent := { s with past := s.past ++ s.current.toList, current := none }

/-- One step of `Supervisor::run`. -/
def Agent.runNext (s : Agent) : RunPc → RunInput → Option Agent
  | .head first, .go =>
    some { s with run := if s.cancelled then .ended else if first then .spawning else .clearing }
  | .clearing, .go => some { s with run := .cleared }
  | .cleared, .go => some { s with run := if s.cancelled then .ended else .spawning }
  | .spawning, .spawn pid =>
    if pid = 0 then none else some { s with current := some ⟨pid, false, false, false⟩, run := .spawned }
  | .spawning, .spawnFailed => some { s with run := .pausing }
  | .spawned, .go => some { s with childPid := (s.current.map Child.pid).getD 0, run := .stored }
  -- a stop that landed between the loop's check and the spawn is seen here
  | .stored, .go => some { s with run := if s.cancelled then .killing else .supervising }
  | .killing, .go => some { s.killGroup ((s.current.map Child.pid).getD 0) with run := .reaping }
  | .reaping, .go => some { s with childPid := 0, run := .ended }
  | .supervising, .go => if s.current.any Child.exited then some { s with run := .exited } else none
  | .exited, .go => some { s with run := .observed s.cancelled }
  | .observed stopping, .go => some { s with childPid := 0, run := .zeroed stopping }
  | .zeroed stopping, .go => some { s.killGroup ((s.current.map Child.pid).getD 0) with run := .swept stopping }
  | .swept true, .go => some { s.retire with run := .ended }
  | .swept false, .go => some { s.retire with crashes := s.crashes ++ s.current.toList, run := .pausing }
  | .swept false, .crashLoop => some { s.retire with crashes := s.crashes ++ s.current.toList, run := .ended }
  | .pausing, .timer => some { s with run := .head false }
  | .pausing, .go => if s.cancelled then some { s with run := .ended } else none
  | _, _ => none

/-- One step of `finish`. -/
def Agent.finishNext (s : Agent) : FinishPc → Option Agent
  | .idle => some { s with finish := .cancelling }
  | .cancelling => some { s with cancelled := true, finish := .loading }
  | .loading => some { s with finish := if s.childPid = 0 then .returned else .notifying s.childPid }
  | .notifying pid => some { s with finish := .terminating pid }
  | .terminating pid => some { s.terminate pid with finish := .waiting pid }
  | .waiting pid => some { s with finish := .sweeping pid }
  | .sweeping pid => some { s.killGroup pid with finish := .rereading pid }
  | .rereading pid =>
    some { s with finish := if s.childPid ≠ 0 ∧ s.childPid ≠ pid then .resweeping s.childPid else .returned }
  | .resweeping pid => some { s.killGroup pid with finish := .returned }
  | .returned => some { s with aborting := true, finish := .done }
  | .done => none

/-- Any order of the two tasks, the child's own exits, and a stop that is asked for from elsewhere. -/
def system : System Agent AgentEvent where
  init s := s = .new
  step s
    | .cancel => some { s with cancelled := true }
    | .exit => if s.current.any fun c => !c.exited then
        some { s with current := s.current.map fun c => { c with exited := true } }
      else none
    | .run input => s.runNext s.run input
    | .finish => s.finishNext s.finish
    | .abort => if s.aborting ∧ s.run.awaits then some { s with run := .ended } else none

/-! ## What each side relies on -/

/-- What the task has published, by where it is. -/
def Agent.Published (s : Agent) : Prop :=
  match s.run with
  | .head _ | .clearing | .cleared | .spawning | .pausing => s.current = none ∧ s.childPid = 0
  | .spawned => ∃ c, s.current = some c ∧ c.pid ≠ 0 ∧ s.childPid = 0
  | .stored | .supervising => ∃ c, s.current = some c ∧ c.pid ≠ 0 ∧ s.childPid = c.pid
  | .killing => ∃ c, s.current = some c ∧ c.pid ≠ 0 ∧ s.childPid = c.pid ∧ s.cancelled = true
  | .reaping => ∃ c, s.current = some c ∧ c.pid ≠ 0 ∧ s.childPid = c.pid ∧ c.swept = true
  | .exited => ∃ c, s.current = some c ∧ c.pid ≠ 0 ∧ s.childPid = c.pid ∧ c.exited = true
  | .observed stopping => ∃ c, s.current = some c ∧ c.pid ≠ 0 ∧ s.childPid = c.pid ∧ c.exited = true ∧
      (stopping = false → c.signalled = false)
  | .zeroed stopping => ∃ c, s.current = some c ∧ c.pid ≠ 0 ∧ s.childPid = 0 ∧ c.exited = true ∧
      (stopping = false → c.signalled = false)
  | .swept stopping => ∃ c, s.current = some c ∧ s.childPid = 0 ∧ c.exited = true ∧ c.swept = true ∧
      (stopping = false → c.signalled = false)
  | .ended => s.current = none ∧ s.childPid = 0 ∨
      ∃ c, s.current = some c ∧ c.pid ≠ 0 ∧ (s.childPid = c.pid ∨ s.childPid = 0 ∧ c.swept = true)

/-- Past its check of the token, on the way to a child that nobody can see yet. -/
def RunPc.unseen : RunPc → Bool
  | .clearing | .cleared | .spawning | .spawned => true
  | _ => false

/-- The task kills the child at hand before it can be aborted. -/
def RunPc.kills : RunPc → Bool
  | .spawned | .stored | .killing | .zeroed _ => true
  | _ => false

/-- What the stop relies on, by where it is. -/
def Agent.Stopped (s : Agent) : Prop :=
  match s.finish with
  | .idle | .cancelling => True
  | .loading => s.cancelled = true
  | .notifying pid | .terminating pid | .waiting pid | .sweeping pid => s.cancelled = true ∧
      s.run.unseen = false ∧ pid ≠ 0 ∧ ∀ c, s.current = some c → c.pid = pid
  | .rereading pid => s.cancelled = true ∧ s.run.unseen = false ∧
      ∀ c, s.current = some c → c.pid = pid ∧ c.swept = true
  | .resweeping _ => False
  | .returned | .done => s.cancelled = true ∧ ∀ c, s.current = some c → c.swept = false → s.run.kills = true

structure Safe (s : Agent) : Prop where
  published : s.Published
  stopped : s.Stopped
  aborting : s.aborting = true → s.finish = .done
  /-- Only a stop sends signals to a child that is there. -/
  signalled : ∀ c, s.current = some c → c.signalled = true → s.cancelled = true
  past : ∀ c ∈ s.past, c.swept = true
  crashes : ∀ c ∈ s.crashes, c.signalled = false

section
variable {s t : Agent} {c : Child} {f : Child → Child}

/-! ## Signals and exits -/

/-- What others do to the child at hand: none of it is undone, and no signal reaches it when it has exited. -/
structure Marks (f : Child → Child) : Prop where
  pid : ∀ c, (f c).pid = c.pid
  exited : ∀ c, c.exited = true → (f c).exited = true
  swept : ∀ c, c.swept = true → (f c).swept = true
  signalled : ∀ c, c.exited = true → (f c).signalled = c.signalled

theorem marks_killGroup (pid : Nat) :
    Marks fun c => if pid ≠ 0 ∧ c.pid = pid then { c.signal with swept := true } else c := by
  constructor <;> intro c <;> split <;> simp +contextual [Child.signal]

theorem marks_terminate (pid : Nat) : Marks fun c => if c.pid = pid then c.signal else c := by
  constructor <;> intro c <;> split <;> simp +contextual [Child.signal]

theorem marks_exit : Marks fun c => { c with exited := true } := by
  constructor <;> simp

/-- What the task has published does not depend on the marks of its child. -/
theorem Agent.Published.marks (h : s.Published) (hf : Marks f) (hrun : t.run = s.run) (hpid : t.childPid = s.childPid)
    (hcurrent : t.current = s.current.map f) (hcancelled : s.cancelled = true → t.cancelled = true) : t.Published := by
  have hsome {c : Child} (hc : s.current = some c) : t.current = some (f c) := by rw [hcurrent, hc, Option.map_some]
  have hne {c : Child} (hc : c.pid ≠ 0) : (f c).pid ≠ 0 := by rwa [hf.pid]
  unfold Agent.Published at h ⊢
  rw [hrun]
  cases hpc : s.run <;> simp only [hpc] at h ⊢
  case head | clearing | cleared | spawning | pausing =>
    rw [hcurrent, h.1, hpid]
    exact ⟨rfl, h.2⟩
  case spawned =>
    obtain ⟨c, hc, hpos, hzero⟩ := h
    exact ⟨f c, hsome hc, hne hpos, hpid.trans hzero⟩
  case stored | supervising =>
    obtain ⟨c, hc, hpos, hstored⟩ := h
    exact ⟨f c, hsome hc, hne hpos, by rw [hpid, hf.pid, hstored]⟩
  case killing =>
    obtain ⟨c, hc, hpos, hstored, hcancel⟩ := h
    exact ⟨f c, hsome hc, hne hpos, by rw [hpid, hf.pid, hstored], hcancelled hcancel⟩
  case reaping =>
    obtain ⟨c, hc, hpos, hstored, hswept⟩ := h
    exact ⟨f c, hsome hc, hne hpos, by rw [hpid, hf.pid, hstored], hf.swept c hswept⟩
  case exited =>
    obtain ⟨c, hc, hpos, hstored, hexited⟩ := h
    exact ⟨f c, hsome hc, hne hpos, by rw [hpid, hf.pid, hstored], hf.exited c hexited⟩
  case observed =>
    obtain ⟨c, hc, hpos, hstored, hexited, hquiet⟩ := h
    exact ⟨f c, hsome hc, hne hpos, by rw [hpid, hf.pid, hstored], hf.exited c hexited,
      fun hgoing => (hf.signalled c hexited).trans (hquiet hgoing)⟩
  case zeroed =>
    obtain ⟨c, hc, hpos, hzero, hexited, hquiet⟩ := h
    exact ⟨f c, hsome hc, hne hpos, hpid.trans hzero, hf.exited c hexited,
      fun hgoing => (hf.signalled c hexited).trans (hquiet hgoing)⟩
  case swept =>
    obtain ⟨c, hc, hzero, hexited, hswept, hquiet⟩ := h
    exact ⟨f c, hsome hc, hpid.trans hzero, hf.exited c hexited, hf.swept c hswept,
      fun hgoing => (hf.signalled c hexited).trans (hquiet hgoing)⟩
  case ended =>
    rcases h with ⟨hnone, hzero⟩ | ⟨c, hc, hpos, hstored⟩
    · exact .inl ⟨by rw [hcurrent, hnone, Option.map_none], hpid.trans hzero⟩
    · refine .inr ⟨f c, hsome hc, hne hpos, ?_⟩
      rw [hpid, hf.pid]
      exact hstored.imp_right fun ⟨hzero, hswept⟩ => ⟨hzero, hf.swept c hswept⟩

/-- A child behind a mark. -/
theorem of_marks (hf : Marks f) (hcurrent : t.current = s.current.map f) (hc : t.current = some c) :
    ∃ c₀, s.current = some c₀ ∧ c = f c₀ ∧ c.pid = c₀.pid ∧ (c₀.swept = true → c.swept = true) := by
  rw [hcurrent] at hc
  obtain ⟨c₀, hc₀, rfl⟩ := Option.map_eq_some_iff.1 hc
  exact ⟨c₀, hc₀, rfl, hf.pid c₀, hf.swept c₀⟩

/-- What the stop relies on does not depend on the marks either. -/
theorem Agent.Stopped.marks (h : s.Stopped) (hf : Marks f) (hrun : t.run = s.run) (hfinish : t.finish = s.finish)
    (hcurrent : t.current = s.current.map f) (hcancelled : s.cancelled = true → t.cancelled = true) : t.Stopped := by
  unfold Agent.Stopped at h ⊢
  rw [hfinish, hrun]
  cases hpc : s.finish <;> simp only [hpc] at h ⊢
  case loading => exact hcancelled h
  case notifying | terminating | waiting | sweeping =>
    obtain ⟨hcancel, hseen, hpos, hpid⟩ := h
    refine ⟨hcancelled hcancel, hseen, hpos, fun c hc => ?_⟩
    obtain ⟨c₀, hc₀, -, hsame, -⟩ := of_marks hf hcurrent hc
    exact hsame.trans (hpid c₀ hc₀)
  case rereading =>
    obtain ⟨hcancel, hseen, hall⟩ := h
    refine ⟨hcancelled hcancel, hseen, fun c hc => ?_⟩
    obtain ⟨c₀, hc₀, -, hsame, hswept⟩ := of_marks hf hcurrent hc
    exact ⟨hsame.trans (hall c₀ hc₀).1, hswept (hall c₀ hc₀).2⟩
  case returned | done =>
    obtain ⟨hcancel, hkills⟩ := h
    refine ⟨hcancelled hcancel, fun c hc hnot => ?_⟩
    obtain ⟨c₀, hc₀, -, -, hswept⟩ := of_marks hf hcurrent hc
    exact hkills c₀ hc₀ (Bool.eq_false_iff.2 fun htrue => Bool.false_ne_true (hnot.symm.trans (hswept htrue)))

/-! ## The task's own steps -/

/-- What a step of `Supervisor::run` does, as far as the other side can tell. -/
structure RunStep (s t : Agent) : Prop where
  published : t.Published
  finish : t.finish = s.finish
  aborting : t.aborting = s.aborting
  cancelled : t.cancelled = s.cancelled
  /-- Once cancelled, a task with nothing on its way spawns nothing more. -/
  seen : s.cancelled = true → s.run.unseen = false → t.run.unseen = false ∧
    ∀ c, t.current = some c → ∃ c₀, s.current = some c₀ ∧ c.pid = c₀.pid ∧ (c₀.swept = true → c.swept = true)
  kills : s.cancelled = true → (∀ c, s.current = some c → c.swept = false → s.run.kills = true) →
    ∀ c, t.current = some c → c.swept = false → t.run.kills = true
  signalled : ∀ c, t.current = some c → c.signalled = true → t.cancelled = true
  past : ∀ c ∈ t.past, c.swept = true
  crashes : ∀ c ∈ t.crashes, c.signalled = false

/-- A step that leaves the child alone. -/
theorem RunStep.goto (h : Safe s) {pc : RunPc} {pid : Nat}
    (hpublished : ({ s with run := pc, childPid := pid } : Agent).Published)
    (hseen : s.cancelled = true → s.run.unseen = false → pc.unseen = false)
    (hkills : s.cancelled = true → s.run.kills = true → pc.kills = true) :
    RunStep s { s with run := pc, childPid := pid } where
  published := hpublished
  finish := rfl
  aborting := rfl
  cancelled := rfl
  seen hcancel hrun := ⟨hseen hcancel hrun, fun c hc => ⟨c, hc, rfl, id⟩⟩
  kills hcancel hall c hc hnot := hkills hcancel (hall c hc hnot)
  signalled := h.signalled
  past := h.past
  crashes := h.crashes

/-- A step that kills the child's group. -/
theorem RunStep.kill (h : Safe s) (hc : s.current = some c) (hpos : c.pid ≠ 0) {pc : RunPc}
    (hpublished : ({ s.killGroup ((s.current.map Child.pid).getD 0) with run := pc } : Agent).Published)
    (hseen : pc.unseen = false) (hsignal : s.cancelled = true ∨ c.exited = true) :
    RunStep s { s.killGroup ((s.current.map Child.pid).getD 0) with run := pc } := by
  have hkilled : (s.killGroup ((s.current.map Child.pid).getD 0)).current = some { c.signal with swept := true } := by
    simp [Agent.killGroup, hc, hpos]
  refine ⟨hpublished, rfl, rfl, rfl, fun _ _ => ⟨hseen, ?_⟩, ?_, ?_, h.past, h.crashes⟩
  · intro c' hc'
    cases hkilled.symm.trans hc'
    exact ⟨c, hc, rfl, fun _ => rfl⟩
  · intro _ _ c' hc' hnot
    cases hkilled.symm.trans hc'
    cases hnot
  · intro c' hc' hsignalled
    cases hkilled.symm.trans hc'
    rcases hsignal with hcancel | hexited
    · exact hcancel
    · -- it was gone already, so this signal did not reach it
      exact h.signalled c hc (by simpa [Child.signal, hexited] using hsignalled)

/-- A step that is done with the child, and may report it. -/
theorem RunStep.retire (h : Safe s) (hc : s.current = some c) (hzero : s.childPid = 0) (hswept : c.swept = true)
    {pc : RunPc} {crashes : List Child} (hpc : pc = .ended ∨ pc = .pausing)
    (hcrashes : crashes = s.crashes ∨ crashes = s.crashes ++ [c] ∧ c.signalled = false) :
    RunStep s { s.retire with crashes, run := pc } := by
  refine ⟨?_, rfl, rfl, rfl, fun _ _ => ⟨?_, by rintro _ ⟨⟩⟩, by rintro _ _ _ ⟨⟩, by rintro _ ⟨⟩, ?_, ?_⟩
  · rcases hpc with rfl | rfl
    · exact .inl ⟨rfl, hzero⟩
    · exact ⟨rfl, hzero⟩
  · rcases hpc with rfl | rfl <;> rfl
  · intro c' hc'
    rcases List.mem_append.1 hc' with hold | hnew
    · exact h.past c' hold
    · rw [hc] at hnew
      rwa [List.mem_singleton.1 hnew]
  · rcases hcrashes with rfl | ⟨rfl, hquiet⟩
    · exact h.crashes
    · intro c' hc'
      rcases List.mem_append.1 hc' with hold | hnew
      · exact h.crashes c' hold
      · rwa [List.mem_singleton.1 hnew]

theorem runStep (h : Safe s) {input : RunInput} (hstep : s.runNext s.run input = some t) : RunStep s t := by
  have hp := h.published
  unfold Agent.Published at hp
  cases hpc : s.run <;> simp only [hpc] at hp hstep <;> cases input <;> simp only [Agent.runNext, reduceCtorEq] at hstep
  case head.go first =>
    cases hstep
    refine RunStep.goto h ?_ ?_ ?_
    · cases s.cancelled <;> cases first <;> first | exact hp | exact .inl hp
    · intro hcancel _
      rw [hcancel]
      rfl
    · intro _ hkills
      simp [hpc, RunPc.kills] at hkills
  case clearing.go =>
    cases hstep
    exact RunStep.goto h hp (by simp [hpc, RunPc.unseen]) (by simp [hpc, RunPc.kills])
  case cleared.go =>
    cases hstep
    refine RunStep.goto h ?_ (by simp [hpc, RunPc.unseen]) (by simp [hpc, RunPc.kills])
    cases s.cancelled <;> first | exact hp | exact .inl hp
  case spawning.spawn pid =>
    obtain ⟨hpos, hstep⟩ := Option.ite_none_left_eq_some.1 hstep
    cases hstep
    refine ⟨⟨_, rfl, hpos, hp.2⟩, rfl, rfl, rfl, by simp [hpc, RunPc.unseen], fun _ _ _ _ _ => rfl, ?_, h.past,
      h.crashes⟩
    rintro _ ⟨⟩ ⟨⟩
  case spawning.spawnFailed =>
    cases hstep
    exact RunStep.goto h hp (by simp [hpc, RunPc.unseen]) (by simp [hpc, RunPc.kills])
  case spawned.go =>
    cases hstep
    obtain ⟨c, hc, hpos, -⟩ := hp
    exact RunStep.goto h ⟨c, hc, hpos, by simp [hc]⟩ (by simp [hpc, RunPc.unseen]) fun _ _ => rfl
  case stored.go =>
    cases hstep
    obtain ⟨c, hc, hpos, hstored⟩ := hp
    refine RunStep.goto h ?_ ?_ ?_
    · cases s.cancelled
      · exact ⟨c, hc, hpos, hstored⟩
      · exact ⟨c, hc, hpos, hstored, rfl⟩
    · intro hcancel _
      rw [hcancel]
      rfl
    · intro hcancel _
      rw [hcancel]
      rfl
  case killing.go =>
    cases hstep
    obtain ⟨c, hc, hpos, hstored, hcancel⟩ := hp
    have hkilled : (s.killGroup ((s.current.map Child.pid).getD 0)).current = some { c.signal with swept := true } := by
      simp [Agent.killGroup, hc, hpos]
    exact RunStep.kill h hc hpos ⟨_, hkilled, hpos, hstored, rfl⟩ rfl (.inl hcancel)
  case reaping.go =>
    cases hstep
    obtain ⟨c, hc, hpos, -, hswept⟩ := hp
    exact RunStep.goto h (.inr ⟨c, hc, hpos, .inr ⟨rfl, hswept⟩⟩) (fun _ _ => rfl) (by simp [hpc, RunPc.kills])
  case supervising.go =>
    obtain ⟨c, hc, hpos, hstored⟩ := hp
    obtain ⟨hexited, hstep⟩ := Option.ite_none_right_eq_some.1 hstep
    cases hstep
    rw [hc] at hexited
    exact RunStep.goto h ⟨c, hc, hpos, hstored, hexited⟩ (fun _ _ => rfl) (by simp [hpc, RunPc.kills])
  case exited.go =>
    cases hstep
    obtain ⟨c, hc, hpos, hstored, hexited⟩ := hp
    refine RunStep.goto h ⟨c, hc, hpos, hstored, hexited, fun hgoing => ?_⟩ (fun _ _ => rfl)
      (by simp [hpc, RunPc.kills])
    -- a signal before the exit came from a stop, which the token shows by now
    exact Bool.eq_false_iff.2 fun hsignalled => Bool.false_ne_true (hgoing.symm.trans (h.signalled c hc hsignalled))
  case observed.go stopping =>
    cases hstep
    obtain ⟨c, hc, hpos, -, hexited, hquiet⟩ := hp
    exact RunStep.goto h ⟨c, hc, hpos, rfl, hexited, hquiet⟩ (fun _ _ => rfl) fun _ _ => rfl
  case zeroed.go stopping =>
    cases hstep
    obtain ⟨c, hc, hpos, hzero, hexited, hquiet⟩ := hp
    have hkilled : (s.killGroup ((s.current.map Child.pid).getD 0)).current = some { c.signal with swept := true } := by
      simp [Agent.killGroup, hc, hpos]
    refine RunStep.kill h hc hpos ⟨_, hkilled, hzero, hexited, rfl, fun hgoing => ?_⟩ rfl (.inr hexited)
    simp [Child.signal, hexited, hquiet hgoing]
  case swept.go stopping =>
    obtain ⟨c, hc, hzero, hexited, hswept, hquiet⟩ := hp
    cases stopping with
    | true =>
      cases hstep
      exact RunStep.retire h hc hzero hswept (.inl rfl) (.inl rfl)
    | false =>
      cases hstep
      exact RunStep.retire h hc hzero hswept (.inr rfl) (.inr ⟨by rw [hc]; rfl, hquiet rfl⟩)
  case swept.crashLoop stopping =>
    obtain ⟨c, hc, hzero, hexited, hswept, hquiet⟩ := hp
    cases stopping with
    | true => cases hstep
    | false =>
      cases hstep
      exact RunStep.retire h hc hzero hswept (.inl rfl) (.inr ⟨by rw [hc]; rfl, hquiet rfl⟩)
  case pausing.go =>
    obtain ⟨-, hstep⟩ := Option.ite_none_right_eq_some.1 hstep
    cases hstep
    exact RunStep.goto h (.inl hp) (fun _ _ => rfl) (by simp [hpc, RunPc.kills])
  case pausing.timer =>
    cases hstep
    exact RunStep.goto h hp (fun _ _ => rfl) (by simp [hpc, RunPc.kills])

theorem Safe.run (h : Safe s) (hstep : RunStep s t) : Safe t where
  published := hstep.published
  stopped := by
    have hs := h.stopped
    unfold Agent.Stopped at hs ⊢
    rw [hstep.finish]
    cases hpc : s.finish <;> simp only [hpc] at hs ⊢
    case loading => exact hstep.cancelled.trans hs
    case notifying | terminating | waiting | sweeping =>
      obtain ⟨hcancel, hunseen, hpos, hpid⟩ := hs
      obtain ⟨hunseen', hcurrent⟩ := hstep.seen hcancel hunseen
      refine ⟨hstep.cancelled.trans hcancel, hunseen', hpos, fun c hc => ?_⟩
      obtain ⟨c₀, hc₀, hsame, -⟩ := hcurrent c hc
      exact hsame.trans (hpid c₀ hc₀)
    case rereading =>
      obtain ⟨hcancel, hunseen, hall⟩ := hs
      obtain ⟨hunseen', hcurrent⟩ := hstep.seen hcancel hunseen
      refine ⟨hstep.cancelled.trans hcancel, hunseen', fun c hc => ?_⟩
      obtain ⟨c₀, hc₀, hsame, hswept⟩ := hcurrent c hc
      exact ⟨hsame.trans (hall c₀ hc₀).1, hswept (hall c₀ hc₀).2⟩
    case returned | done => exact ⟨hstep.cancelled.trans hs.1, hstep.kills hs.1 hs.2⟩
  aborting haborting := by
    rw [hstep.finish]
    exact h.aborting (hstep.aborting ▸ haborting)
  signalled := hstep.signalled
  past := hstep.past
  crashes := hstep.crashes

/-! ## The stop's steps, and the rest -/

/-- No pid stands, and the task kills the child it has by itself, or the pid is that of the child at hand. -/
theorem Agent.Published.childPid (h : s.Published) :
    s.childPid = 0 ∧ (∀ c, s.current = some c → c.swept = false → s.run.kills = true) ∨
      s.run.unseen = false ∧ ∃ c, s.current = some c ∧ c.pid ≠ 0 ∧ s.childPid = c.pid := by
  have hswept {c : Child} (hc : s.current = some c) (hswept : c.swept = true) :
      ∀ c, s.current = some c → c.swept = false → s.run.kills = true := by
    intro c' hc' hnot
    cases hc.symm.trans hc'
    cases hswept.symm.trans hnot
  unfold Agent.Published at h
  cases hpc : s.run <;> simp only [hpc] at h hswept
  case head | clearing | cleared | spawning | pausing =>
    refine .inl ⟨h.2, fun c hc => ?_⟩
    cases h.1.symm.trans hc
  case spawned =>
    obtain ⟨c, -, -, hzero⟩ := h
    exact .inl ⟨hzero, fun _ _ _ => rfl⟩
  case stored | supervising =>
    obtain ⟨c, hc, hpos, hstored⟩ := h
    exact .inr ⟨rfl, c, hc, hpos, hstored⟩
  case killing | reaping | exited | observed =>
    obtain ⟨c, hc, hpos, hstored, -⟩ := h
    exact .inr ⟨rfl, c, hc, hpos, hstored⟩
  case zeroed =>
    obtain ⟨c, -, -, hzero, -⟩ := h
    exact .inl ⟨hzero, fun _ _ _ => rfl⟩
  case swept =>
    obtain ⟨c, hc, hzero, -, hgone, -⟩ := h
    exact .inl ⟨hzero, hswept hc hgone⟩
  case ended =>
    rcases h with ⟨hnone, hzero⟩ | ⟨c, hc, hpos, hstored | ⟨hzero, hgone⟩⟩
    · refine .inl ⟨hzero, fun c hc => ?_⟩
      cases hnone.symm.trans hc
    · exact .inr ⟨rfl, c, hc, hpos, hstored⟩
    · exact .inl ⟨hzero, hswept hc hgone⟩

/-- A step that marks the child, if anything: what the task relies on stays. -/
theorem Safe.marks (h : Safe s) (hf : Marks f) {cancelled : Bool} (hcancel : s.cancelled = true → cancelled = true)
    {finish : FinishPc} {aborting : Bool} (haborting : aborting = true → finish = .done)
    (hsignal : (∀ c, (f c).signalled = c.signalled) ∨ cancelled = true)
    (hstopped : ({ s with current := s.current.map f, cancelled, finish, aborting } : Agent).Stopped) :
    Safe { s with current := s.current.map f, cancelled, finish, aborting } where
  published := h.published.marks hf rfl rfl rfl hcancel
  stopped := hstopped
  aborting := haborting
  signalled c hc hsignalled := by
    rcases hsignal with hsame | hcancelled
    · obtain ⟨c₀, hc₀, rfl⟩ := Option.map_eq_some_iff.1 hc
      exact hcancel (h.signalled c₀ hc₀ ((hsame c₀).symm.trans hsignalled))
    · exact hcancelled
  past := h.past
  crashes := h.crashes

theorem marks_id : Marks id := ⟨fun _ => rfl, fun _ => id, fun _ => id, fun _ _ => rfl⟩

/-- A step of the stop that leaves the child alone. -/
theorem Safe.moves (h : Safe s) {cancelled : Bool} (hcancel : s.cancelled = true → cancelled = true) {finish : FinishPc}
    {aborting : Bool} (haborting : aborting = true → finish = .done)
    (hstopped : ({ s with cancelled, finish, aborting } : Agent).Stopped) :
    Safe { s with cancelled, finish, aborting } := by
  have hsame : s.current = s.current.map id := Option.map_id.symm ▸ rfl
  have hmarked := @Safe.marks s id h marks_id cancelled hcancel finish aborting haborting (.inl fun _ => rfl)
  rw [← hsame] at hmarked
  exact hmarked hstopped

theorem Safe.finish (h : Safe s) (hstep : s.finishNext s.finish = some t) : Safe t := by
  have hs := h.stopped
  have hearly (hne : s.finish ≠ .done) {P : Prop} (haborting : s.aborting = true) : P :=
    absurd (h.aborting haborting) hne
  unfold Agent.Stopped at hs
  cases hpc : s.finish <;> simp only [hpc] at hs hstep <;> cases hstep
  case idle => exact h.moves id (hearly (by simp [hpc])) trivial
  case cancelling => exact h.moves (fun _ => rfl) (hearly (by simp [hpc])) rfl
  case loading =>
    refine h.moves id (hearly (by simp [hpc])) ?_
    rcases h.published.childPid with ⟨hzero, hkills⟩ | ⟨hunseen, c, hc, hpos, hpid⟩
    · rw [if_pos hzero]
      exact ⟨hs, hkills⟩
    · rw [if_neg (hpid ▸ hpos)]
      refine ⟨hs, hunseen, hpid ▸ hpos, fun c' hc' => ?_⟩
      cases hc.symm.trans hc'
      exact hpid.symm
  case notifying | waiting => exact h.moves id (hearly (by simp [hpc])) hs
  case terminating pid =>
    obtain ⟨hcancel, hunseen, hpos, hpid⟩ := hs
    refine h.marks (marks_terminate pid) id (hearly (by simp [hpc])) (.inr hcancel)
      ⟨hcancel, hunseen, hpos, fun c hc => ?_⟩
    obtain ⟨c₀, hc₀, -, hsame, -⟩ := of_marks (marks_terminate pid) rfl hc
    exact hsame.trans (hpid c₀ hc₀)
  case sweeping pid =>
    obtain ⟨hcancel, hunseen, hpos, hpid⟩ := hs
    refine h.marks (marks_killGroup pid) id (hearly (by simp [hpc])) (.inr hcancel) ⟨hcancel, hunseen, fun c hc => ?_⟩
    obtain ⟨c₀, hc₀, rfl, hsame, -⟩ := of_marks (marks_killGroup pid) rfl hc
    exact ⟨hsame.trans (hpid c₀ hc₀), by rw [if_pos ⟨hpos, hpid c₀ hc₀⟩]⟩
  case rereading pid =>
    obtain ⟨hcancel, hunseen, hall⟩ := hs
    refine h.moves id (hearly (by simp [hpc])) ?_
    have hnone : ¬ (s.childPid ≠ 0 ∧ s.childPid ≠ pid) := by
      rintro ⟨hpos, hne⟩
      rcases h.published.childPid with ⟨hzero, -⟩ | ⟨-, c, hc, -, hpid⟩
      · exact hpos hzero
      · exact hne (hpid.trans (hall c hc).1)
    rw [if_neg hnone]
    refine ⟨hcancel, fun c hc hnot => ?_⟩
    cases (hall c hc).2.symm.trans hnot
  case returned => exact h.moves id (fun _ => rfl) hs

theorem Safe.step (h : Safe s) {e : AgentEvent} (hstep : system.step s e = some t) : Safe t := by
  cases e with
  | cancel =>
    cases hstep
    have hs := h.stopped.marks marks_id (t := { s with cancelled := true }) rfl rfl (by simp) fun _ => rfl
    exact h.moves (fun _ => rfl) h.aborting hs
  | exit =>
    obtain ⟨-, hstep⟩ := Option.ite_none_right_eq_some.1 hstep
    cases hstep
    exact h.marks marks_exit id h.aborting (.inl fun _ => rfl) (h.stopped.marks marks_exit rfl rfl rfl id)
  | run input => exact h.run (runStep h hstep)
  | finish => exact h.finish hstep
  | abort =>
    obtain ⟨⟨haborting, hawaits⟩, hstep⟩ := Option.ite_none_right_eq_some.1 hstep
    cases hstep
    have hdone := h.aborting haborting
    have hs := h.stopped
    unfold Agent.Stopped at hs
    simp only [hdone] at hs
    -- where the task awaits it kills nothing any more, so nothing is left to be killed
    have hnot : s.run.kills = false := by
      cases hpc : s.run <;> simp [hpc, RunPc.awaits, RunPc.kills] at hawaits ⊢
    have hswept (c : Child) (hc : s.current = some c) : c.swept = true :=
      eq_true_of_ne_false fun hleft => Bool.false_ne_true (hnot.symm.trans (hs.2 c hc hleft))
    refine ⟨?_, ?_, h.aborting, h.signalled, h.past, h.crashes⟩
    · have hp := h.published
      unfold Agent.Published at hp
      cases hpc : s.run <;> simp only [hpc] at hp hawaits
      case clearing | pausing => exact .inl hp
      case supervising =>
        obtain ⟨c, hc, hpos, hstored⟩ := hp
        exact .inr ⟨c, hc, hpos, .inl hstored⟩
      case reaping =>
        obtain ⟨c, hc, hpos, hstored, -⟩ := hp
        exact .inr ⟨c, hc, hpos, .inl hstored⟩
      all_goals cases hawaits
    · unfold Agent.Stopped
      simp only [hdone]
      refine ⟨hs.1, fun c hc hleft => ?_⟩
      cases (hswept c hc).symm.trans hleft

theorem safe (h : system.Reach System.free s) : Safe s := by
  refine h.invariant ?_ fun _ _ _ _ ih _ hstep => ih.step hstep
  rintro _ rfl
  exact ⟨⟨rfl, rfl⟩, trivial, by rintro ⟨⟩, by rintro _ ⟨⟩, by rintro _ ⟨⟩, by rintro _ ⟨⟩⟩

/-! ## The end of the boot -/

/-- The steps of the task, its own and the abort. -/
def AgentEvent.isRun : AgentEvent → Bool
  | .run _ | .abort => true
  | _ => false

/-- How many steps the task has left once it is cancelled. -/
def RunPc.rank : RunPc → Nat
  | .ended => 0
  | .head _ | .cleared | .reaping => 1
  | .clearing | .killing | .pausing => 2
  | .stored | .swept _ => 3
  | .spawned | .zeroed _ => 4
  | .spawning | .observed _ => 5
  | .exited => 6
  | .supervising => 7

theorem rank_lt (hcancel : s.cancelled = true) {e : AgentEvent} (he : e.isRun = true)
    (hstep : system.step s e = some t) : t.run.rank < s.run.rank := by
  cases e with
  | run input =>
    change s.runNext s.run input = some t at hstep
    cases hpc : s.run <;> simp only [hpc] at hstep <;> cases input <;>
      simp only [Agent.runNext, reduceCtorEq, hcancel, if_true] at hstep
    case spawning.spawn =>
      obtain ⟨-, hstep⟩ := Option.ite_none_left_eq_some.1 hstep
      cases hstep
      simp [RunPc.rank]
    case supervising.go =>
      obtain ⟨-, hstep⟩ := Option.ite_none_right_eq_some.1 hstep
      cases hstep
      simp [RunPc.rank]
    case swept.go stopping => cases stopping <;> cases hstep <;> simp [RunPc.rank]
    case swept.crashLoop stopping =>
      cases stopping with
      | true => cases hstep
      | false =>
        cases hstep
        simp [RunPc.rank]
    all_goals
      cases hstep
      simp [RunPc.rank]
  | abort =>
    obtain ⟨⟨-, hawaits⟩, hstep⟩ := Option.ite_none_right_eq_some.1 hstep
    cases hstep
    cases hpc : s.run <;> simp [hpc, RunPc.awaits, RunPc.rank] at hawaits ⊢
  | _ => cases he

/-- Once aborted, the task is over or can take a step. -/
theorem Safe.canStep (haborting : s.aborting = true) (hended : s.run ≠ .ended) :
    ∃ e t, AgentEvent.isRun e = true ∧ system.step s e = some t := by
  by_cases hawaits : s.run.awaits = true
  · exact ⟨.abort, _, rfl, if_pos ⟨haborting, hawaits⟩⟩
  · cases hpc : s.run <;> simp [hpc, RunPc.awaits] at hawaits hended
    case spawning => exact ⟨.run .spawnFailed, _, rfl, by simp only [system, hpc]; rfl⟩
    case swept stopping => cases stopping <;> exact ⟨.run .go, _, rfl, by simp only [system, hpc]; rfl⟩
    all_goals exact ⟨.run .go, _, rfl, by simp only [system, hpc]; rfl⟩

/-- When `finish` is done, every child's group is killed once the spawn loop is over, and the loop comes to its end by
steps of its own; whatever the order of the two, no child that a signal of the stop reached is reported as a crash. -/
theorem no_orphans (h : system.Reach System.free s) :
    (s.finish = .done → s.run = .ended → ∀ c ∈ s.past ++ s.current.toList, c.swept = true) ∧
    (s.aborting = true → (s.run ≠ .ended → ∃ e t, AgentEvent.isRun e = true ∧ system.step s e = some t) ∧
      ∀ e t, AgentEvent.isRun e = true → system.step s e = some t → t.run.rank < s.run.rank) ∧
    ∀ c ∈ s.crashes, c.signalled = false := by
  have hsafe := safe h
  have hs := hsafe.stopped
  unfold Agent.Stopped at hs
  refine ⟨fun hdone hended c hc => ?_, fun haborting => ⟨Safe.canStep haborting, fun e t he hstep => ?_⟩, hsafe.crashes⟩
  · simp only [hdone, hended] at hs
    rcases List.mem_append.1 hc with hpast | hcurrent
    · exact hsafe.past c hpast
    · refine eq_true_of_ne_false fun hleft => ?_
      cases hs.2 c (Option.mem_toList.1 hcurrent) hleft
  · simp only [hsafe.aborting haborting] at hs
    exact rank_lt hs.1 he hstep

/-- The stop reads the pid after the spawn and before it is stored. -/
def stopDuringSpawn : List AgentEvent := [.run .go, .run (.spawn 7), .finish, .finish, .finish, .run .go, .finish,
  .run .go, .run .go, .abort]

theorem no_orphans_stopDuringSpawn : ∃ s, system.Reach System.free s ∧ s.run = .ended ∧
    s.current = some ⟨7, false, true, true⟩ ∧ (s.finish = .done → s.run = .ended →
      ∀ c ∈ s.past ++ s.current.toList, c.swept = true) := by
  have hreach := System.reach_of_exec (S := system) rfl (rfl : system.exec .new stopDuringSpawn = some _)
  exact ⟨_, hreach, rfl, rfl, (no_orphans hreach).1⟩

end

end Zedspaces.Supervisor.StopChild
