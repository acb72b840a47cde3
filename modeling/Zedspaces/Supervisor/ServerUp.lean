/-
The `server_up` watch. A call that marks the server listening, or exited, updates the state under the lock and sends the
new value of the watch after it has let the lock go, so a send can be overtaken: where a child exits between the two
halves of a `mark_server_listening`, the watch says that it is up when it is gone (`not_serverUp_eq`). Where the sends
come in the order of the updates, the watch shows the state once no send is owed (`serverUp_eq`).
-/
import Zedspaces.Lib.Announce
import Zedspaces.Lib.Processes

namespace Zedspaces.Supervisor

open Lib Lib.System

variable {Health : Type}

structure ServerStatus where
  running : Bool
  listening : Bool
  pid : Option Nat
  lastExit : Option Int
  startedAtMs : Option Nat

/-- Where `Supervisor::run` is: without a child, with one, or about to send what the update of that number left. -/
inductive SupervisorPc where
  | noChild
  | child
  | exited (update : Nat)
  deriving DecidableEq

/-- What the agent knows of its server, what the watch carries, the supervisor, and how many updates calls have made. -/
structure AgentState (Health : Type) where
  server : ServerStatus
  serverHealth : Option Health
  serverUp : Option Nat
  supervisor : SupervisorPc
  updates : Nat

def AgentState.new : AgentState Health where
  server := { running := false, listening := false, pid := none, lastExit := none, startedAtMs := none }
  serverHealth := none
  serverUp := none
  supervisor := .noChild
  updates := 0

/-- A call of `mark_server_listening`, from the stdout of a child, the relay or the boot: before it takes the lock, and
with the generation that it has still to send. -/
inductive ListeningPc where
  | called
  | updated (generation : Option Nat) (update : Nat)
  | finished
  deriving DecidableEq

/-- The locked half of a `mark_server_listening` that is news. -/
def AgentState.setListening (w : AgentState Health) : AgentState Health :=
  { w with server := { w.server with listening := true }, updates := w.updates + 1 }

def AgentState.markServerListening (w : AgentState Health) : ListeningPc → Option (AgentState Health × ListeningPc)
  | .called =>
    if !w.server.running || w.server.listening then some (w, .finished)
    else some (w.setListening, .updated w.server.startedAtMs w.updates)
  | .updated generation _ => some ({ w with serverUp := generation }, .finished)
  | .finished => none

/-- The steps of `Supervisor::run` that touch the state, and the relay's writes of the health. -/
inductive ServerEvent (Health : Type) where
  | spawned (pid now : Nat)
  | exited (exitCode : Option Int)
  | sendExited
  | health (body : Option Health)

/-- The update of `supervise_child`. -/
def AgentState.superviseChild (w : AgentState Health) (pid now : Nat) : AgentState Health :=
  { w with
    server := { w.server with running := true, listening := false, pid := some pid, startedAtMs := some now }
    supervisor := .child }

/-- The locked half of `mark_server_exited`. -/
def AgentState.markServerExited (w : AgentState Health) (exitCode : Option Int) : AgentState Health :=
  { w with
    server := { w.server with running := false, listening := false, pid := none, lastExit := exitCode }
    serverHealth := none
    supervisor := .exited w.updates
    updates := w.updates + 1 }

def AgentState.env (w : AgentState Health) : ServerEvent Health → AgentState Health
  | .spawned pid now => if w.supervisor = .noChild then w.superviseChild pid now else w
  | .exited exitCode => if w.supervisor = .child then w.markServerExited exitCode else w
  | .sendExited => match w.supervisor with
    | .exited _ => { w with serverUp := none, supervisor := .noChild }
    | _ => w
  | .health body => { w with serverHealth := body }

def serverCalls (Health : Type) : Machine (AgentState Health) ListeningPc Unit Unit (ServerEvent Health) where
  accept _ w := some (w, .called)
  next _ pc _ w := (w.markServerListening pc).map fun (w, pc) => (w, pc, none)
  halt _ := none
  env event w := w.env event

abbrev ServerCalls (Health : Type) := Table (AgentState Health) ListeningPc

abbrev serverSystem (Health : Type) := (serverCalls Health).system (· = AgentState.new)

/-- What the watch should carry. -/
def ServerStatus.up (server : ServerStatus) : Option Nat :=
  if server.running && server.listening then server.startedAtMs else none

/-! ## The sends that are owed -/

/-- The update that a call has still to send. -/
def ListeningPc.owes : ListeningPc → Option Nat
  | .updated _ update => some update
  | _ => none

def SupervisorPc.owes : SupervisorPc → Option Nat
  | .exited update => some update
  | _ => none

/-- No send is owed of an update before `update`. -/
def Oldest (s : ServerCalls Health) (update : Nat) : Prop :=
  (∀ m q, s.procs m = some q → ∀ k ∈ q.owes, update ≤ k) ∧ ∀ k ∈ s.world.supervisor.owes, update ≤ k

/-- The sends come in the order of the updates. -/
def InOrder (s : ServerCalls Health) : Event Unit Unit (ServerEvent Health) → Prop
  | .act n _ => ∀ p ∈ s.procs n, ∀ k ∈ p.owes, Oldest s k
  | .env .sendExited => ∀ k ∈ s.world.supervisor.owes, Oldest s k
  | _ => True

instance (s : ServerCalls Health) (update : Nat) : Decidable (Oldest s update) := inferInstanceAs (Decidable (_ ∧ _))

instance (s : ServerCalls Health) : (e : Event Unit Unit (ServerEvent Health)) → Decidable (InOrder s e)
  | .act n _ => inferInstanceAs (Decidable (∀ p ∈ s.procs n, ∀ k ∈ p.owes, Oldest s k))
  | .env .sendExited => inferInstanceAs (Decidable (∀ k ∈ s.world.supervisor.owes, Oldest s k))
  | .arrive _ _ | .halt _ | .env (.spawned _ _) | .env (.exited _) | .env (.health _) => instDecidableTrue

/-- Every call that was started has finished. -/
def AllFinished (s : ServerCalls Health) : Prop :=
  (∀ n p, s.procs n = some p → p = .finished) ∧ s.world.supervisor.owes = none

instance (s : ServerCalls Health) : Decidable (AllFinished s) := inferInstanceAs (Decidable (_ ∧ _))

/-- The update `k` has still to send `v`. -/
def Owed (s : ServerCalls Health) (k : Nat) (v : Option Nat) : Prop :=
  (∃ n, s.procs n = some (.updated v k)) ∨ (s.world.supervisor = .exited k ∧ v = none)

/-- A server is recorded as running while the supervisor has a child, and since when it runs. -/
structure ChildRecorded (w : AgentState Health) : Prop where
  running : w.supervisor ≠ .child → w.server.running = false ∧ w.server.listening = false
  started : w.server.running = true → ∃ now, w.server.startedAtMs = some now

/-- The watch is current, and the server recorded as it is. -/
structure UpInv (s : ServerCalls Health) : Prop where
  current : Current (Owed s) s.world.serverUp s.world.server.up s.world.updates
  child : ChildRecorded s.world

/-! ## One step keeps the watch current -/

variable {s : ServerCalls Health} {w : AgentState Health} {n k : Nat} {v : Option Nat}

/-- What is owed after a step of call `n`. -/
theorem owed_set {q : ListeningPc} : Owed (s.set n q w) k v ↔ q = .updated v k ∨
    (∃ m, m ≠ n ∧ s.procs m = some (.updated v k)) ∨ (w.supervisor = .exited k ∧ v = none) := by
  unfold Owed
  rw [← or_assoc]
  refine or_congr ⟨?_, ?_⟩ Iff.rfl
  · rintro ⟨m, hm⟩
    rw [Table.set_procs] at hm
    split at hm
    · exact .inl (Option.some.inj hm)
    · next h => exact .inr ⟨m, h, hm⟩
  · rintro (rfl | ⟨m, hmn, hm⟩)
    · exact ⟨n, Table.set_procs_self ..⟩
    · exact ⟨m, by rw [Table.set_procs_ne s hmn, hm]⟩

/-- A call that owed nothing and owes nothing changes nothing. -/
theorem owed_set_idle {p q : ListeningPc} (hp : ∀ r, s.procs n = some r → r = p) (ho : p.owes = none)
    (hq : q.owes = none) (hw : w.supervisor = s.world.supervisor) : Owed (s.set n q w) k v ↔ Owed s k v := by
  rw [owed_set, hw]
  constructor
  · rintro (rfl | ⟨m, -, hm⟩ | hs)
    · cases hq
    · exact .inl ⟨m, hm⟩
    · exact .inr hs
  · rintro (⟨m, hm⟩ | hs)
    · by_cases hmn : m = n
      · subst hmn
        rw [← hp _ hm] at ho
        cases ho
      · exact .inr (.inl ⟨m, hmn, hm⟩)
    · exact .inr (.inr hs)

theorem Oldest.le (h : Oldest s k) {k' : Nat} {v' : Option Nat} (ho : Owed s k' v') : k ≤ k' := by
  rcases ho with ⟨m, hm⟩ | ⟨hs, -⟩
  · exact h.1 m _ hm k' rfl
  · exact h.2 k' (by rw [hs]; rfl)

/-- A call that is about to take the lock. -/
theorem upInv_called (h : UpInv s) (hp : s.procs n = some .called) {q : ListeningPc}
    (hn : s.world.markServerListening .called = some (w, q)) : UpInv (s.set n q w) := by
  have hidle : ∀ r, s.procs n = some r → r = .called := fun r hr => by rw [hp] at hr; cases hr; rfl
  simp only [AgentState.markServerListening] at hn
  split at hn
  · cases hn
    exact ⟨h.current.congr fun k v => owed_set_idle hidle rfl rfl rfl, h.child⟩
  · next hl =>
    cases hn
    have hrun : s.world.server.running = true ∧ s.world.server.listening = false := by
      simpa using hl
    have hview : s.world.setListening.server.up = s.world.server.startedAtMs := by
      simp [AgentState.setListening, ServerStatus.up, hrun.1]
    refine ⟨h.current.update fun k v => ?_, fun hc => ?_, h.child.started⟩
    · have hset := owed_set_idle (s := s) (n := n) (k := k) (v := v) (q := .called) (w := s.world) hidle rfl rfl rfl
      rw [← hset, owed_set, owed_set, Table.set_world, hview]
      simp [AgentState.setListening, and_comm, eq_comm]
    · have hnone := (h.child.running hc).1
      rw [hrun.1] at hnone
      cases hnone

/-- A call that sends what it has seen. -/
theorem upInv_send (h : UpInv s) (hp : s.procs n = some (.updated v k)) (hold : Oldest s k) :
    UpInv (s.set n .finished { s.world with serverUp := v }) := by
  refine ⟨h.current.announce (k := k) (.inl ⟨n, hp⟩) (fun k' v' => hold.le) (fun k' v' ho => ?_) (fun k' v' ho => ?_),
    h.child.running, h.child.started⟩
  · rcases owed_set.1 ho with ho | ⟨m, -, hm⟩ | hs
    · cases ho
    · exact .inl ⟨m, hm⟩
    · exact .inr hs
  · rw [owed_set]
    rcases ho with ⟨m, hm⟩ | hs
    · by_cases hmn : m = n
      · subst hmn
        rw [hp] at hm
        cases hm
        exact .inr rfl
      · exact .inl (.inr (.inl ⟨m, hmn, hm⟩))
    · exact .inl (.inr (.inr hs))

/-- A state in which only the world has changed. -/
theorem owed_env : Owed (⟨w, s.entries⟩ : ServerCalls Health) k v ↔
    (∃ n, s.procs n = some (.updated v k)) ∨ (w.supervisor = .exited k ∧ v = none) := Iff.rfl

/-- Without a child there is no server to be up. -/
theorem ChildRecorded.up_none (h : ChildRecorded w) (hs : w.supervisor ≠ .child) : w.server.up = none := by
  simp [ServerStatus.up, (h.running hs).1]

theorem upInv_spawned (h : UpInv s) (hs : s.world.supervisor = .noChild) (pid now : Nat) :
    UpInv ⟨s.world.superviseChild pid now, s.entries⟩ := by
  have hview : (s.world.superviseChild pid now).server.up = s.world.server.up := by
    rw [h.child.up_none (by simp [hs])]
    rfl
  refine ⟨?_, fun hc => absurd rfl hc, fun _ => ⟨now, rfl⟩⟩
  rw [hview]
  refine h.current.congr fun k v => ?_
  rw [owed_env, Owed, hs]
  simp [AgentState.superviseChild]

theorem upInv_exited (h : UpInv s) (hs : s.world.supervisor = .child) (exitCode : Option Int) :
    UpInv ⟨s.world.markServerExited exitCode, s.entries⟩ := by
  refine ⟨h.current.update fun k v => ?_, fun _ => ⟨rfl, rfl⟩, fun hr => by cases hr⟩
  rw [owed_env, Owed, hs]
  simp [AgentState.markServerExited, ServerStatus.up, eq_comm, or_comm]

theorem upInv_sendExited (h : UpInv s) (hs : s.world.supervisor = .exited k) (hold : Oldest s k) :
    UpInv ⟨{ s.world with serverUp := none, supervisor := .noChild }, s.entries⟩ := by
  refine ⟨h.current.announce (k := k) (.inr ⟨hs, rfl⟩) (fun k' v' => hold.le) (fun k' v' ho => ?_) (fun k' v' ho => ?_),
    fun _ => h.child.running (by simp [hs]), h.child.started⟩
  · rcases owed_env.1 ho with hm | ⟨hc, -⟩
    · exact .inl hm
    · cases hc
  · rcases ho with hm | ⟨hc, -⟩
    · exact .inl (.inl hm)
    · rw [hs] at hc
      cases hc
      exact .inr rfl

theorem upInv_env (h : UpInv s) (event : ServerEvent Health) (hg : InOrder s (.env event)) :
    UpInv ⟨s.world.env event, s.entries⟩ := by
  cases event with
  | spawned pid now =>
    simp only [AgentState.env]
    split
    · next hs => exact upInv_spawned h hs pid now
    · exact h
  | exited exitCode =>
    simp only [AgentState.env]
    split
    · next hs => exact upInv_exited h hs exitCode
    · exact h
  | sendExited =>
    simp only [AgentState.env]
    split
    · next k hs => exact upInv_sendExited h hs (hg k (by rw [hs]; rfl))
    · exact h
  | health body => exact ⟨h.current, h.child.running, h.child.started⟩

theorem step_upInv {t : ServerCalls Health} {e : Event Unit Unit (ServerEvent Health)} (h : UpInv s)
    (hg : InOrder s e) (hst : (serverCalls Health).step s e = some t) : UpInv t := by
  cases Machine.steps_of_step hst with
  | arrive free ha =>
    cases ha
    exact ⟨h.current.congr fun k v => owed_set_idle (p := .called) (fun r hr => by rw [free] at hr; cases hr) rfl rfl rfl,
      h.child⟩
  | @act n _ w p q st hp ha =>
    obtain ⟨⟨w', q'⟩, hn, he⟩ := Option.map_eq_some_iff.1 ha
    cases he
    cases p with
    | called => exact upInv_called h hp hn
    | updated v k =>
      cases hn
      exact upInv_send h hp (hg _ hp k rfl)
    | finished => cases hn
  | halt _ ha => cases ha
  | env => exact upInv_env h _ hg

theorem reach_upInv (h : (serverSystem Health).Reach InOrder s) : UpInv s := by
  refine h.invariant ?_ fun s e t _ hi hg hst => step_upInv hi hg hst
  rintro ⟨_, _⟩ ⟨rfl, rfl⟩
  refine ⟨(Current.init none).congr fun k v => ?_, fun _ => ⟨rfl, rfl⟩, fun hr => by cases hr⟩
  simp [Owed, Table.procs, AgentState.new]

/-! ## The watch -/

theorem AllFinished.not_owed (h : AllFinished s) : ¬ Owed s k v := by
  rintro (⟨n, hn⟩ | ⟨hs, -⟩)
  · cases h.1 n _ hn
  · have := h.2
    rw [hs] at this
    cases this

/-- Where the sends come in the order of the updates, and no call is under way, the watch carries the start of the child
that is recorded as running and listening, and nothing if there is none. -/
theorem serverUp_eq (h : (serverSystem Health).Reach InOrder s) (hfin : AllFinished s) :
    if s.world.server.running ∧ s.world.server.listening then
      ∃ now, s.world.server.startedAtMs = some now ∧ s.world.serverUp = some now
    else s.world.serverUp = none := by
  obtain ⟨hcurrent, hchild⟩ := reach_upInv h
  have hup : s.world.serverUp = s.world.server.up := hcurrent.settled fun k v => hfin.not_owed
  split
  · next hl =>
    obtain ⟨now, hnow⟩ := hchild.started hl.1
    exact ⟨now, hnow, by rw [hup, ServerStatus.up, hl.1, hl.2, ← hnow]; rfl⟩
  · next hl =>
    rw [hup, ServerStatus.up, if_neg]
    simpa using hl

/-- A child comes up, is seen to, and exits; the next one comes up too. -/
theorem serverUp_eq_respawn : ∃ s : ServerCalls Unit, (serverSystem Unit).Reach InOrder s ∧ AllFinished s ∧
    s.world.server.running = true ∧ s.world.server.listening = true ∧ s.world.server.startedAtMs = some 9 ∧
    s.world.serverUp = some 9 := by
  obtain ⟨s, hs, hfin, hr, hl, hat⟩ := exists_reach_of_execs (S := serverSystem Unit) (G := InOrder)
    (s := ⟨AgentState.new, []⟩)
    (fun s => AllFinished s ∧ s.world.server.running = true ∧ s.world.server.listening = true ∧
      s.world.server.startedAtMs = some 9)
    [.env (.spawned 40 5), .arrive 1 (), .act 1 (), .act 1 (), .env (.exited (some 1)), .env .sendExited,
      .env (.spawned 41 9), .arrive 2 (), .act 2 (), .arrive 3 (), .act 3 (), .act 2 ()]
    ⟨rfl, rfl⟩ (by decide) (by decide)
  have hup := serverUp_eq hs hfin
  rw [if_pos ⟨hr, hl⟩] at hup
  obtain ⟨now, hnow, hup⟩ := hup
  rw [hat] at hnow
  cases hnow
  exact ⟨s, hs, hfin, hr, hl, hat, hup⟩

/-- A child that exits between the two halves of the call that saw it listening is announced for good. -/
theorem not_serverUp_eq : ¬ ∀ s : ServerCalls Unit, (serverSystem Unit).Reach free s → AllFinished s →
    if s.world.server.running ∧ s.world.server.listening then
      ∃ now, s.world.server.startedAtMs = some now ∧ s.world.serverUp = some now
    else s.world.serverUp = none := by
  intro h
  obtain ⟨s, hs, hfin, hr, hup⟩ := exists_reach_of_exec (S := serverSystem Unit) (s := ⟨AgentState.new, []⟩)
    (fun s => AllFinished s ∧ s.world.server.running = false ∧ s.world.serverUp = some 5)
    [.env (.spawned 40 5), .arrive 1 (), .act 1 (), .env (.exited (some 1)), .env .sendExited, .act 1 ()]
    ⟨rfl, rfl⟩ (by decide)
  have hnone := h s hs hfin
  rw [if_neg (by simp [hr]), hup] at hnone
  cases hnone

/-! ## The condition is needed -/

/-- A send of an exit that overtakes a `mark_server_listening`: after the send of the latter the watch carries the start
of a child that is gone. -/
theorem stale_of_sendExited (hi : UpInv s) {g : Nat} (hp : s.procs n = some (.updated (some g) k))
    (hs : ∃ j, s.world.supervisor = .exited j) :
    ∃ t, (serverCalls Health).step ⟨s.world.env .sendExited, s.entries⟩ (.act n ()) = some t ∧
      t.world.server.running = false ∧ t.world.serverUp = some g := by
  obtain ⟨j, hj⟩ := hs
  have hp' : (⟨s.world.env .sendExited, s.entries⟩ : ServerCalls Health).procs n = some (.updated (some g) k) := hp
  refine ⟨_, by simp only [Machine.step, hp', Option.bind_some, serverCalls, AgentState.markServerListening]; rfl, ?_, rfl⟩
  rw [Table.after_world]
  simp only [AgentState.env, hj]
  exact (hi.child.running (by simp [hj])).1

end Zedspaces.Supervisor
