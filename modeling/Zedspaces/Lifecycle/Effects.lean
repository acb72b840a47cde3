/-
Who performs what. A run performs statements on its own workspace and calls to the platform; the closing
`stepFinishRun` comes from the finishing phase and from nowhere else. A request, a sweep row and a gc run
have their own few statements. These facts are read off the step functions once and used by every
property about the whole control plane.
-/
import Zedspaces.Lifecycle.ControlPlane

namespace Zedspaces.Lifecycle

open Lib

/-! ## The clock -/

theorem Stmt.now_le_exec (cfg : Config) (stmt : Stmt) (w : World) : w.now ≤ (stmt.exec cfg w).now := by
  cases stmt with
  | tick ms => exact Int.le_add_of_nonneg_right (Int.natCast_nonneg ms)
  | deleteSandbox name how => cases how <;> exact le_refl _
  | _ => exact le_refl _

/-! ## Statements of a body -/

/-- What the body of a workflow on `id` may perform. -/
def Stmt.ofBody (id : WsId) : Stmt → Prop
  | .setState j _ _ patch => j = id ∧ (patch = .none ∨ patch = .clearArchive ∨ patch = .clearPointers)
  | .recordSandboxSession j _ _ _ _ _ | .noteBootPhase j _ | .markStopped j _ _ _
  | .recordSessionEnd j _ | .setRelease j _ | .bumpGeneration j _ _ _ | .purgeRows j | .startSupervisor j _ _ => j = id
  | .nothing | .getOrCreate _ | .resume _ | .stopSandbox _ | .deleteSandbox _ _ | .startArchive _ | .finishArchive _
  | .deleteBlob _ => True
  | _ => False

/-- The workflows patch a row in three ways only. -/
def Stmt.Regular : Stmt → Prop
  | .setState _ _ _ patch => patch = .none ∨ patch = .clearArchive ∨ patch = .clearPointers
  | _ => True

theorem Stmt.ofBody.regular {stmt : Stmt} {id : WsId} (h : stmt.ofBody id) : stmt.Regular := by
  cases stmt <;> first | trivial | exact h.2

section
variable {cfg : Config} {id : WsId} {a : Answer} {w : World}

theorem ChildPc.next_stmt {input : Input} {pc : ChildPc} {d : Did ChildPc} (h : pc.next input a w = some d) :
    d.stmt = .nothing := by
  revert h
  fun_cases ChildPc.next input pc a w <;> rintro ⟨⟩ <;> rfl

/-- A part of a body that waits for a child performs nothing. -/
theorem ChildPc.within_stmt {pc' : Type} {f : ChildPc → pc'} {after : Next pc'} {input : Input} {pc : ChildPc}
    {d : Did pc'} (h : (pc.next input a w).map (Did.within f after) = some d) : d.stmt = .nothing := by
  obtain ⟨d', hd, rfl⟩ := Option.map_eq_some_iff.1 h
  exact ChildPc.next_stmt hd

theorem ChildPc.next_ofBody {pc' : Type} {f : ChildPc → pc'} {after : Next pc'} {input : Input} {pc : ChildPc}
    {d : Did pc'} (h : (pc.next input a w).map (Did.within f after) = some d) : d.stmt.ofBody id := by
  rw [ChildPc.within_stmt h]
  trivial

theorem Workspace.readyPatch_cases (ws : Workspace) :
    ws.readyPatch = .none ∨ ws.readyPatch = .clearArchive ∨ ws.readyPatch = .clearPointers := by
  unfold readyPatch
  split
  · exact .inl rfl
  · exact .inr (.inl rfl)

theorem CreatePc.next_ofBody {pc : CreatePc} {d : Did CreatePc} (h : pc.next cfg id a w = some d) :
    d.stmt.ofBody id := by
  revert h
  fun_cases CreatePc.next cfg id pc a w <;> rintro ⟨⟩ <;> first | exact rfl | trivial | exact ⟨rfl, Workspace.readyPatch_cases _⟩

theorem ConnectPc.next_ofBody {pc : ConnectPc} {d : Did ConnectPc} (h : pc.next cfg id a w = some d) :
    d.stmt.ofBody id := by
  revert h
  fun_cases ConnectPc.next cfg id pc a w <;> rintro ⟨⟩ <;> first | exact rfl | trivial | exact ⟨rfl, .inl rfl⟩

theorem StopPc.next_ofBody {reason : StopReason} {pc : StopPc} {d : Did StopPc} (h : pc.next id reason a w = some d) :
    d.stmt.ofBody id := by
  revert h
  fun_cases StopPc.next id reason pc a w <;> rintro ⟨⟩ <;> first | exact rfl | trivial | exact ⟨rfl, .inl rfl⟩

theorem RestartPc.next_ofBody {pc : RestartPc} {d : Did RestartPc} (h : pc.next a w = some d) : d.stmt.ofBody id := by
  revert h
  fun_cases RestartPc.next pc a w <;> exact ChildPc.next_ofBody

theorem RebuildPc.next_ofBody {upgrade : Option EditorRelease} {pc : RebuildPc} {d : Did RebuildPc}
    (h : pc.next id upgrade a w = some d) : d.stmt.ofBody id := by
  revert h
  fun_cases RebuildPc.next id upgrade pc a w
  all_goals first
    | exact ChildPc.next_ofBody
    | (rintro ⟨⟩ <;> first | exact rfl | trivial | exact ⟨rfl, .inl rfl⟩ | exact ⟨rfl, .inr (.inr rfl)⟩)

theorem DeletePc.next_ofBody {pc : DeletePc} {d : Did DeletePc} (h : pc.next id a w = some d) : d.stmt.ofBody id := by
  revert h
  fun_cases DeletePc.next id pc a w
  all_goals first
    | exact ChildPc.next_ofBody
    | (rintro ⟨⟩ <;> first | exact rfl | trivial | exact ⟨rfl, .inl rfl⟩)

theorem Body.next_ofBody {input : Input} {b : Body} {d : Did Body} (h : b.next cfg id input a w = some d) :
    d.stmt.ofBody id := by
  revert h
  fun_cases Body.next cfg id input b a w <;> intro h
  case case7 => cases h
  all_goals obtain ⟨d', hd, rfl⟩ := Option.map_eq_some_iff.1 h
  · exact CreatePc.next_ofBody hd
  · exact ConnectPc.next_ofBody hd
  · exact StopPc.next_ofBody hd
  · exact RestartPc.next_ofBody hd
  · exact RebuildPc.next_ofBody hd
  · exact DeletePc.next_ofBody hd

end

/-! ## Steps of a process -/

section
variable {cfg : Config} {me : Pid} {a : Answer} {w : World} {stmt : Stmt}

/-- Where a run is after a step of its body. -/
def Run.afterBody (r : Run) : Next Body → Phase
  | .goto b => .body b
  | .returns => r.close .ok
  | .throws error => r.close (.failed error none)

theorem Run.close_cases (r : Run) (outcome : RunOutcome) :
    (∃ ok, r.close outcome = .ended ok) ∨ r.close outcome = .finishing outcome := by
  unfold close
  split
  · exact .inl ⟨_, rfl⟩
  · exact .inr rfl

/-- A run that is in its body after a step of it has gone on. -/
theorem Run.afterBody_body {r : Run} {next : Next Body} {b : Body} (h : r.afterBody next = .body b) : next = .goto b := by
  cases next with
  | goto b' => cases h; rfl
  | returns => rcases r.close_cases .ok with ⟨ok, he⟩ | he <;> cases he.symm.trans h
  | throws error => rcases r.close_cases (.failed error none) with ⟨ok, he⟩ | he <;> cases he.symm.trans h

/-- A step of a run is a step of its body or of its closing `stepFinishRun`. -/
inductive Run.Step (cfg : Config) (r : Run) (a : Answer) (w : World) : Stmt → Run → Option (RunId × Input) → Prop
  | body {b : Body} {d : Did Body} (at_ : r.phase = .body b) (h : b.next cfg r.ws r.input a w = some d) :
      Step cfg r a w d.stmt { r with phase := r.afterBody d.next } d.starts
  | finished {outcome : RunOutcome} (at_ : r.phase = .finishing outcome) (ok : Bool) :
      Step cfg r a w (.finishRun r.ws outcome) { r with phase := .ended ok } none
  | retried {error : String} (at_ : r.phase = .finishing .ok) :
      Step cfg r a w .nothing { r with phase := .finishing (.failed error none) } none

theorem Run.step_of_next {r r' : Run} {st : Option (RunId × Input)} (h : r.next cfg a w = some (stmt, r', st)) :
    r.Step cfg a w stmt r' st := by
  unfold Run.next at h
  split at h
  case h_1 b hb =>
    obtain ⟨d, hd, he⟩ := Option.map_eq_some_iff.1 h
    cases he
    exact .body hb hd
  case h_2 hp =>
    split at h
    · cases h; exact .finished hp true
    · cases h; exact .retried hp
    · cases h
  case h_3 error state hp =>
    split at h
    · cases h; exact .finished hp false
    · cases h
  case h_4 => cases h

/-- What a run performs. -/
def Stmt.ofRun (id : WsId) : Stmt → Prop
  | .finishRun j _ => j = id
  | stmt => stmt.ofBody id

theorem Run.Step.ofRun {r r' : Run} {st : Option (RunId × Input)} (h : r.Step cfg a w stmt r' st) :
    stmt.ofRun r.ws := by
  cases h with
  | @body b d at_ hb =>
    have := Body.next_ofBody hb
    cases hs : d.stmt <;> rw [hs] at this <;> first | exact this | exact this.elim
  | finished at_ ok => rfl
  | retried at_ => trivial

/-- A step keeps the workspace, the input and the starter of a run. -/
theorem Run.Step.same {r r' : Run} {st : Option (RunId × Input)} (h : r.Step cfg a w stmt r' st) :
    r'.ws = r.ws ∧ r'.input = r.input ∧ r'.starter = r.starter := by
  cases h <;> exact ⟨rfl, rfl, rfl⟩

theorem Run.Step.inFlight {r r' : Run} {st : Option (RunId × Input)} (h : r.Step cfg a w stmt r' st) :
    r.inFlight = true := by
  cases h with
  | body hp | finished hp | retried hp => simp [Run.inFlight, hp]

/-- What a `startLifecycle` call performs. -/
def Stmt.ofCall (id : WsId) (me : CallId) : Stmt → Prop
  | .nothing => True
  | .lock j c | .unlock j c | .admitRun j c | .takeBack j c | .recordRun j c _ => j = id ∧ c = me
  | _ => False

theorem Stmt.ofCall.regular {id : WsId} (h : stmt.ofCall id me) : stmt.Regular := by
  cases stmt <;> trivial

theorem CallPc.next_ofCall {id : WsId} {input : Input} {pc pc' : CallPc} {st : Option Starts}
    (h : pc.next cfg me id input a w = some (stmt, pc', st)) : stmt.ofCall id me := by
  revert h
  fun_cases CallPc.next cfg me id input pc a w <;> rintro ⟨⟩ <;> first | exact ⟨rfl, rfl⟩ | trivial

theorem StartCall.next_ofCall {c c' : StartCall} {st : Option Starts} (h : c.next cfg me a w = some (stmt, c', st)) :
    stmt.ofCall c.ws me := by
  obtain ⟨⟨stmt', pc, st'⟩, hpc, he⟩ := Option.map_eq_some_iff.1 h
  cases he
  exact CallPc.next_ofCall hpc

/-- What a request performs: a step of its `startLifecycle` call, the two statements of
`markWorkspaceLost`, or the session it opens. -/
inductive RequestPc.Performs (me : Pid) (r : ConnectInput) : RequestPc → Stmt → Option Starts → Prop
  | call {call : StartCall} {stmt : Stmt} {st : Option Starts} (h : stmt.ofCall call.ws me) :
      Performs me r (.starting call) stmt st
  | quiet {pc : RequestPc} : Performs me r pc .nothing none
  | lostClose {ws : Workspace} {reason : String} :
      Performs me r (.lostClose ws reason) (.recordSessionEnd r.ws "sandbox_lost") none
  | lostUpdate {ws : Workspace} {reason : String} : Performs me r (.lostUpdate ws reason) (.markLost r.ws reason) none
  | openSession {ws : Workspace} {host : Host} :
      Performs me r (.openSession ws host) (.openSession r.ws ws ⟨r.tabId, host⟩) none

theorem RequestPc.performs_of_next {r : ConnectInput} {pc pc' : RequestPc} {st : Option Starts}
    (h : pc.next cfg me r a w = some (stmt, pc', st)) : RequestPc.Performs me r pc stmt st := by
  revert h
  fun_cases RequestPc.next cfg me r pc a w
  case case7 ws resumed pc =>
    intro h
    obtain ⟨x, -, he⟩ := Option.map_eq_some_iff.1 h
    cases he
    exact .quiet
  case case8 => rintro ⟨⟩; exact .lostClose
  case case9 => rintro ⟨⟩; exact .lostUpdate
  case case12 call =>
    intro h
    obtain ⟨⟨stmt', call', st'⟩, hc, he⟩ := Option.map_eq_some_iff.1 h
    cases he
    exact .call (StartCall.next_ofCall hc)
  case case14 => rintro ⟨⟩; exact .openSession
  all_goals rintro ⟨⟩ <;> exact .quiet

/-- What a sweep row performs. -/
theorem ReconcilePc.next_cases {r : StuckRow} {pc pc' : ReconcilePc} (h : pc.next r a = some (stmt, pc')) :
    stmt = .nothing ∨ ∃ error, pc = .release error ∧ stmt = .releaseRun r.ws r.ref error := by
  revert h
  fun_cases ReconcilePc.next r pc a
  case case3 error => rintro ⟨⟩; exact .inr ⟨error, rfl, rfl⟩
  all_goals rintro ⟨⟩ <;> exact .inl rfl

/-- What a gc run performs. -/
inductive GcPc.Performs (now : Int) : GcPc → Stmt → Prop
  | quiet {pc : GcPc} : Performs now pc .nothing
  | warn {selected : List WsId} : Performs now (.warnUpdate selected) (.warnRetention now selected)
  | orphan {name : SandboxName} {orphans : List SandboxName} {how : Deletion} :
      Performs now (.deleteOrphans (name :: orphans)) (.deleteSandbox name how)
  | stale {selected : List Nat} : Performs now (.staleUpdate selected) (.closeStaleSessions now selected)

theorem GcPc.performs_of_next {now : Int} {pc pc' : GcPc} {st : Option Starts}
    (h : pc.next now a w = some (stmt, pc', st)) : GcPc.Performs now pc stmt := by
  revert h
  fun_cases GcPc.next now pc a w
  case case2 => rintro ⟨⟩; exact .warn
  case case6 id queue names child =>
    intro h
    obtain ⟨d, hd, he⟩ := Option.map_eq_some_iff.1 h
    cases he
    rw [ChildPc.next_stmt hd]
    exact .quiet
  case case9 => rintro ⟨⟩; exact .orphan
  case case11 => rintro ⟨⟩; exact .stale
  all_goals rintro ⟨⟩ <;> exact .quiet

/-- A process of each kind takes a step of its kind. -/
theorem Proc.next_run {r : Run} {p' : Proc} {st : Option Starts} (h : (Proc.run r).next cfg me a w = some (stmt, p', st)) :
    ∃ r' st', r.Step cfg a w stmt r' st' ∧ p' = .run r' ∧ st = st'.map fun x => ⟨x.1, r.ws, x.2⟩ := by
  obtain ⟨⟨stmt', r', st'⟩, hr, he⟩ := Option.map_eq_some_iff.1 h
  cases he
  exact ⟨r', st', Run.step_of_next hr, rfl, rfl⟩

theorem Proc.next_call {c : StartCall} {p' : Proc} {st : Option Starts}
    (h : (Proc.call c).next cfg me a w = some (stmt, p', st)) :
    ∃ pc, c.pc.next cfg me c.ws c.input a w = some (stmt, pc, st) ∧ p' = .call { c with pc } := by
  obtain ⟨⟨stmt', c', st'⟩, hc, he⟩ := Option.map_eq_some_iff.1 h
  cases he
  obtain ⟨⟨stmt'', pc, st''⟩, hpc, he⟩ := Option.map_eq_some_iff.1 hc
  cases he
  exact ⟨pc, hpc, rfl⟩

theorem Proc.next_request {r : Request} {p' : Proc} {st : Option Starts}
    (h : (Proc.request r).next cfg me a w = some (stmt, p', st)) :
    ∃ pc, r.pc.next cfg me r.input a w = some (stmt, pc, st) ∧ p' = .request { r with pc } := by
  obtain ⟨⟨stmt', r', st'⟩, hr, he⟩ := Option.map_eq_some_iff.1 h
  cases he
  obtain ⟨⟨stmt'', pc, st''⟩, hpc, he⟩ := Option.map_eq_some_iff.1 hr
  cases he
  exact ⟨pc, hpc, rfl⟩

theorem Proc.next_reconcile {r : Reconcile} {p' : Proc} {st : Option Starts}
    (h : (Proc.reconcile r).next cfg me a w = some (stmt, p', st)) :
    ∃ pc, r.pc.next r.row a = some (stmt, pc) ∧ p' = .reconcile { r with pc } ∧ st = none := by
  obtain ⟨⟨stmt', r'⟩, hr, he⟩ := Option.map_eq_some_iff.1 h
  cases he
  obtain ⟨⟨stmt'', pc⟩, hpc, he⟩ := Option.map_eq_some_iff.1 hr
  cases he
  exact ⟨pc, hpc, rfl, rfl⟩

theorem Proc.next_gc {g : Gc} {p' : Proc} {st : Option Starts} (h : (Proc.gc g).next cfg me a w = some (stmt, p', st)) :
    ∃ pc, g.pc.next g.now a w = some (stmt, pc, st) ∧ p' = .gc { g with pc } := by
  obtain ⟨⟨stmt', g', st'⟩, hg, he⟩ := Option.map_eq_some_iff.1 h
  cases he
  obtain ⟨⟨stmt'', pc, st''⟩, hpc, he⟩ := Option.map_eq_some_iff.1 hg
  cases he
  exact ⟨pc, hpc, rfl⟩

/-- What a process may perform, by its position. -/
inductive Proc.Does (me : Pid) : Proc → Stmt → Prop
  | quiet {p : Proc} : Does me p .nothing
  | body {r : Run} {b : Body} {stmt : Stmt} (at_ : r.phase = .body b) (h : stmt.ofBody r.ws) : Does me (.run r) stmt
  | finish {r : Run} {outcome : RunOutcome} (at_ : r.phase = .finishing outcome) :
      Does me (.run r) (.finishRun r.ws outcome)
  | call {p : Proc} {id : WsId} {stmt : Stmt} (h : stmt.ofCall id me) : Does me p stmt
  | lostClose {input : ConnectInput} {ws : Workspace} {reason : String} :
      Does me (.request ⟨input, .lostClose ws reason⟩) (.recordSessionEnd input.ws "sandbox_lost")
  | lostUpdate {input : ConnectInput} {ws : Workspace} {reason : String} :
      Does me (.request ⟨input, .lostUpdate ws reason⟩) (.markLost input.ws reason)
  | openSession {input : ConnectInput} {ws : Workspace} {host : Host} :
      Does me (.request ⟨input, .openSession ws host⟩) (.openSession input.ws ws ⟨input.tabId, host⟩)
  | release {row : StuckRow} {error : Option String} :
      Does me (.reconcile ⟨row, .release error⟩) (.releaseRun row.ws row.ref error)
  | warn {now : Int} {selected : List WsId} : Does me (.gc ⟨now, .warnUpdate selected⟩) (.warnRetention now selected)
  | orphan {now : Int} {name : SandboxName} {orphans : List SandboxName} {how : Deletion} :
      Does me (.gc ⟨now, .deleteOrphans (name :: orphans)⟩) (.deleteSandbox name how)
  | stale {now : Int} {selected : List Nat} :
      Does me (.gc ⟨now, .staleUpdate selected⟩) (.closeStaleSessions now selected)

theorem Proc.next_does {p p' : Proc} {st : Option Starts} (h : p.next cfg me a w = some (stmt, p', st)) :
    p.Does me stmt := by
  cases p with
  | run r =>
    obtain ⟨r', st', hr, -, -⟩ := Proc.next_run h
    cases hr with
    | body at_ hb => exact .body at_ (Body.next_ofBody hb)
    | finished at_ ok => exact .finish at_
    | retried at_ => exact .quiet
  | call c =>
    obtain ⟨pc, hc, -⟩ := Proc.next_call h
    exact .call (CallPc.next_ofCall hc)
  | request r =>
    obtain ⟨pc, hr, -⟩ := Proc.next_request h
    obtain ⟨input, pc₀⟩ := r
    cases RequestPc.performs_of_next hr with
    | call hc => exact .call hc
    | quiet => exact .quiet
    | lostClose => exact .lostClose
    | lostUpdate => exact .lostUpdate
    | openSession => exact .openSession
  | reconcile r =>
    obtain ⟨pc, hr, -, -⟩ := Proc.next_reconcile h
    obtain ⟨row, pc₀⟩ := r
    rcases ReconcilePc.next_cases hr with rfl | ⟨error, rfl, rfl⟩
    · exact .quiet
    · exact .release
  | gc g =>
    obtain ⟨pc, hg, -⟩ := Proc.next_gc h
    obtain ⟨now, pc₀⟩ := g
    cases GcPc.performs_of_next hg with
    | quiet => exact .quiet
    | warn => exact .warn
    | orphan => exact .orphan
    | stale => exact .stale

/-- Every statement of a process is regular. -/
theorem Proc.Does.regular {p : Proc} (h : p.Does me stmt) : stmt.Regular := by
  cases h with
  | body at_ h => exact h.regular
  | call h => exact h.regular
  | _ => trivial

/-- No process inserts a row. -/
theorem Proc.Does.ne_insert {p : Proc} {id : WsId} {release : EditorRelease} {idle : Nat}
    (h : p.Does me (.insertWorkspace id release idle)) : False := by
  cases h with
  | body at_ h => exact h
  | call h => exact h

/-- Only a request opens an editor session. -/
theorem Proc.Does.openSession_of {p : Proc} {id : WsId} {read : Workspace} {input : OpenSessionInput}
    (h : p.Does me (.openSession id read input)) :
    ∃ r host, p = .request r ∧ r.pc = .openSession read host ∧ id = r.input.ws := by
  cases h with
  | body at_ h => exact h.elim
  | call h => exact h.elim
  | openSession => exact ⟨_, _, rfl, rfl, rfl⟩

/-- Only a run at its end closes itself. -/
theorem Proc.Does.finishRun_of {p : Proc} {id : WsId} {outcome : RunOutcome} (h : p.Does me (.finishRun id outcome)) :
    ∃ r, p = .run r ∧ r.phase = .finishing outcome ∧ r.ws = id := by
  cases h with
  | body at_ h => exact h.elim
  | call h => exact h.elim
  | finish at_ => exact ⟨_, rfl, at_, rfl⟩

/-- Only the sweep releases a run. -/
theorem Proc.Does.releaseRun_of {p : Proc} {id : WsId} {ref : RunRef} {error : Option String}
    (h : p.Does me (.releaseRun id ref error)) :
    ∃ row, p = .reconcile ⟨row, .release error⟩ ∧ row.ws = id ∧ row.ref = ref := by
  cases h with
  | body at_ h => exact h.elim
  | call h => exact h.elim
  | release => exact ⟨_, rfl, rfl, rfl⟩

/-- Only the warning update of a gc run performs a warning update. -/
theorem Proc.Does.warnRetention_of {p : Proc} {now : Int} {selected : List WsId}
    (h : p.Does me (.warnRetention now selected)) : p = .gc ⟨now, .warnUpdate selected⟩ := by
  cases h with
  | body at_ h => exact h.elim
  | call h => exact h.elim
  | warn => rfl

end

theorem Arrival.accept_regular {cfg : Config} {i : Arrival} {w : World} {stmt : Stmt} {p : Proc}
    (h : i.accept cfg w = some (stmt, p)) : stmt.Regular := by
  rcases Arrival.accept_cases h with ⟨_, _, _, -, -, rfl, -⟩ | ⟨rfl, -⟩ <;> trivial

theorem Ambient.stmt_regular (e : Ambient) : e.stmt.Regular := by cases e <;> trivial

/-! ## Outlines about the world -/

/-- A proof outline whose condition `I` and assertions `A` speak of the world only. Whatever performs a
statement promises `J` of it, and a promise is enough for the condition and for every assertion. -/
structure WorldOutline (cfg : Config) (G : Sys → SysEvent → Prop) (J : Sys → Stmt → Prop) (I : World → Prop)
    (A : Proc → World → Prop) : Prop where
  init : ∀ now, I (World.empty now)
  whole : ∀ s stmt, I s.world → J s stmt → I (stmt.exec cfg s.world)
  each : ∀ s stmt k q, I s.world → s.procs k = some q → J s stmt → A q s.world → A q (stmt.exec cfg s.world)
  arrive : ∀ s n i stmt p, I s.world → G s (.arrive n i) → i.accept cfg s.world = some (stmt, p) →
    J s stmt ∧ A p (stmt.exec cfg s.world)
  act : ∀ s n a p stmt p' st, I s.world → G s (.act n a) → s.procs n = some p → A p s.world →
    p.next cfg n a s.world = some (stmt, p', st) → J s stmt ∧ (A p (stmt.exec cfg s.world) → A p' (stmt.exec cfg s.world))
  fresh : ∀ (id : WsId) (input : Input) (starter : Starter) w, A (.run (.fresh id input starter)) w
  ended : ∀ (r : Run) w, A (.run { r with phase := .ended false }) w
  env : ∀ s e, I s.world → G s (.env e) → J s e.stmt

theorem WorldOutline.outline {cfg : Config} {G : Sys → SysEvent → Prop} {J : Sys → Stmt → Prop} {I : World → Prop}
    {A : Proc → World → Prop} (O : WorldOutline cfg G J I A) :
    Machine.Outline (controlPlane cfg) (fun w => ∃ now, w = World.empty now) G (fun s => I s.world)
      (fun _ p s => A p s.world) where
  init := by
    rintro w ⟨now, rfl⟩
    exact O.init now
  accept := by
    intro s n i w p hs hg _ ha
    obtain ⟨stmt, hi, rfl⟩ := controlPlane_accept ha
    obtain ⟨hj, hp⟩ := O.arrive s n i stmt p hs.whole hg hi
    exact ⟨⟨O.whole s stmt hs.whole hj, fun k q _ hk => O.each s stmt k q hs.whole hk hj (hs.each k q hk)⟩, hp⟩
  next := by
    intro s n a p w p' st hs hg hp ha _
    obtain ⟨stmt, starts, hn, rfl, rfl⟩ := controlPlane_next ha
    have hown := hs.each n p hp
    obtain ⟨hj, hp'⟩ := O.act s n a p stmt p' starts hs.whole hg hp hown hn
    simp only [Table.after_world]
    refine ⟨⟨?_, fun k q _ hk => ?_⟩, hp' (O.each s stmt n p hs.whole hp hj hown), fun m q hq => ?_⟩
    · rw [Table.after_world]
      exact O.whole s stmt hs.whole hj
    · rw [Table.after_world]
      exact O.each s stmt k q hs.whole hk hj (hs.each k q hk)
    · obtain ⟨x, -, hx⟩ := Option.map_eq_some_iff.1 hq
      cases hx
      exact O.fresh ..
  halt := by
    intro s n p p' hs _ _ hh
    refine ⟨⟨hs.whole, fun k q _ hk => hs.each k q hk⟩, ?_⟩
    cases p with
    | run r =>
      simp only [controlPlane, Proc.halt] at hh
      split at hh <;> cases hh
      exact O.ended r _
    | _ => cases hh
  env := by
    intro s e hs hg
    have hj := O.env s e hs.whole hg
    exact ⟨O.whole s _ hs.whole hj, fun k q hk => O.each s _ k q hs.whole hk hj (hs.each k q hk)⟩

end Zedspaces.Lifecycle
