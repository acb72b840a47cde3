/-
Parents and children. A workflow that needs another one starts it as a child, stores its id and polls the
run store; `gc` does the same with its deletions. What one step does with a child is the same for every
parent, so it is said once here, together with what the answers of the run store are when they are true.
-/
import Zedspaces.Lifecycle.Steps
import Zedspaces.Lifecycle.Generations

namespace Zedspaces.Lifecycle

open Lib

variable {cfg : Config} {w : World} {stmt : Stmt} {id : WsId} {s s' : Sys} {e : SysEvent} {a : Answer}

/-! ## The steps of `runChild` -/

/-- What a step does with a child: the run it starts and where it goes on. -/
inductive ChildPc.Step (input : Input) : Answer → ChildPc → Option (RunId × Input) → Next ChildPc → Prop
  | start {X : RunId} : Step input (.started X) .start (some (X, input)) (.goto (.record X))
  | notStarted {error : String} : Step input (.throws error) .start none (.throws error)
  | crashed {X : RunId} : Step input .crashed (.record X) none (.goto .start)
  | notStored {X : RunId} {error : String} : Step input (.throws error) (.record X) none (.throws error)
  | stored {X : RunId} {now : Int} : Step input .ok (.record X) none (.goto (.await X now))
  | settled {X : RunId} {startedAt : Int} {st : RunStatus} (h : st = .completed ∨ st = .failed ∨ st = .cancelled) :
      Step input (.status st) (.await X startedAt) none (.goto (.result X))
  | waits {X : RunId} {startedAt : Int} {st : RunStatus} (h : st = .pending ∨ st = .running ∨ st = .unknown) :
      Step input (.status st) (.await X startedAt) none (.goto (.await X startedAt))
  | lost {X : RunId} {startedAt : Int} {error : String} :
      Step input (.status .unknown) (.await X startedAt) none (.throws error)
  | returned {X : RunId} : Step input .ok (.result X) none .returns
  | failed {X : RunId} {error error' : String} : Step input (.throws error) (.result X) none (.throws error')

theorem ChildPc.step_of_next {input : Input} {c : ChildPc} {d : Did ChildPc} (h : c.next input a w = some d) :
    ChildPc.Step input a c d.starts d.next := by
  revert h
  fun_cases ChildPc.next input c a w <;> rintro ⟨⟩
  case case1 => exact .start
  case case2 => exact .notStarted
  case case3 => exact .crashed
  case case4 => exact .notStored
  case case5 => exact .stored
  case case6 => exact .settled (.inl rfl)
  case case7 => exact .settled (.inr (.inl rfl))
  case case8 => exact .settled (.inr (.inr rfl))
  case case9 => exact .lost
  case case10 => exact .waits (.inr (.inr rfl))
  case case11 => exact .waits (.inl rfl)
  case case12 => exact .waits (.inr (.inl rfl))
  case case13 => exact .returned
  case case14 => exact .failed

/-! ## Bodies -/

/-- The step of a body is the step of its child, or leaves children alone. -/
inductive Body.ChildStep (a : Answer) (b : Body) (d : Did Body) : Prop
  | child {c : ChildPc} {input : Input} {next : Next ChildPc} (hb : b.childPc = some c) (hin : input.child = true)
      (h : ChildPc.Step input a c d.starts next) (hs : d.stmt = .nothing)
      (hgoto : ∀ c', next = .goto c' → ∃ b', d.next = .goto b' ∧ b'.childPc = some c')
      (hout : (∀ c', next ≠ .goto c') → ∀ b', d.next = .goto b' → b'.childPc = none ∨ b'.childPc = some .start)
  | other (hb : b.childPc = none) (hst : d.starts = none)
      (h : ∀ b', d.next = .goto b' → b'.childPc = none ∨ b'.childPc = some .start)

theorem Body.childStep_of_within {pc : Type} {f : ChildPc → pc} {after : Next pc} {g : pc → Body} {c : ChildPc}
    {input : Input} {d : Did pc} (h : (c.next input a w).map (Did.within f after) = some d)
    (hin : input.child = true) (hg : ∀ c, (g (f c)).childPc = some c)
    (hafter : ∀ p, after = .goto p → (g p).childPc = none ∨ (g p).childPc = some .start) :
    Body.ChildStep a (g (f c)) (d.inBody g) := by
  obtain ⟨d', hd, rfl⟩ := Option.map_eq_some_iff.1 h
  refine .child (hg c) hin (ChildPc.step_of_next hd) (ChildPc.next_stmt hd) ?_ ?_
  · rintro c' hc'
    exact ⟨g (f c'), by simp [Did.inBody, Did.within, hc'], hg c'⟩
  · intro hne b' hb'
    cases hd' : d'.next with
    | goto c' => exact absurd hd' (hne c')
    | returns =>
      cases after with
      | goto p =>
        simp only [Did.inBody, Did.within, hd', Next.goto.injEq] at hb'
        exact hb' ▸ hafter p rfl
      | returns => simp [Did.inBody, Did.within, hd'] at hb'
      | throws error => simp [Did.inBody, Did.within, hd'] at hb'
    | throws error => simp [Did.inBody, Did.within, hd'] at hb'

theorem Did.inBody_goto {pc : Type} {f : pc → Body} {d : Did pc} {b' : Body} (h : (d.inBody f).next = .goto b') :
    ∃ p, d.next = .goto p ∧ b' = f p := by
  simp only [Did.inBody] at h
  split at h
  · rename_i p hp
    cases h
    exact ⟨p, hp, rfl⟩
  · cases h
  · cases h

/-- Outside its waits a body starts nothing, and comes to a wait at its start. -/
def Body.Childless (b : Body) (d : Did Body) : Prop := b.childPc = none → d.starts = none ∧
  ∀ b', d.next = .goto b' → b'.childPc = none ∨ b'.childPc = some .start

theorem CreatePc.next_childless {pc : CreatePc} {d : Did CreatePc} (h : pc.next cfg id a w = some d) :
    Body.Childless (.create pc) (d.inBody .create) := by
  refine fun _ => ⟨?_, fun b' hb' => ?_⟩
  · revert h
    fun_cases CreatePc.next cfg id pc a w <;> rintro ⟨⟩ <;> rfl
  · obtain ⟨p, -, rfl⟩ := Did.inBody_goto hb'
    exact .inl rfl

theorem ConnectPc.next_childless {pc : ConnectPc} {d : Did ConnectPc} (h : pc.next cfg id a w = some d) :
    Body.Childless (.connect pc) (d.inBody .connect) := by
  refine fun _ => ⟨?_, fun b' hb' => ?_⟩
  · revert h
    fun_cases ConnectPc.next cfg id pc a w <;> rintro ⟨⟩ <;> rfl
  · obtain ⟨p, -, rfl⟩ := Did.inBody_goto hb'
    exact .inl rfl

theorem StopPc.next_childless {reason : StopReason} {pc : StopPc} {d : Did StopPc} (h : pc.next id reason a w = some d) :
    Body.Childless (.stop pc) (d.inBody .stop) := by
  refine fun _ => ⟨?_, fun b' hb' => ?_⟩
  · revert h
    fun_cases StopPc.next id reason pc a w <;> rintro ⟨⟩ <;> rfl
  · obtain ⟨p, -, rfl⟩ := Did.inBody_goto hb'
    exact .inl rfl

theorem RebuildPc.next_childless {upgrade : Option EditorRelease} {pc : RebuildPc} {d : Did RebuildPc}
    (h : pc.next id upgrade a w = some d) : Body.Childless (.rebuild pc) (d.inBody .rebuild) := by
  intro hpc
  suffices hs : d.starts = none ∧ ∀ p, d.next = .goto p → p.childPc = none ∨ p.childPc = some .start by
    refine ⟨hs.1, fun b' hb' => ?_⟩
    obtain ⟨p, hp, rfl⟩ := Did.inBody_goto hb'
    exact hs.2 p hp
  revert h
  fun_cases RebuildPc.next id upgrade pc a w
  case case1 | case4 =>
    rintro ⟨⟩
    refine ⟨rfl, fun p hp => ?_⟩
    rcases branch_goto hp with ⟨_, _, rfl, -⟩ | ⟨-, rfl | ⟨rfl, -⟩⟩
    · exact .inl rfl
    · exact .inr rfl
    · exact .inl rfl
  all_goals first
    | exact absurd hpc (Option.some_ne_none _)
    | (rintro ⟨⟩ <;> refine ⟨rfl, fun p hp => ?_⟩ <;> cases hp <;> first | exact .inl rfl | exact .inr rfl)

theorem DeletePc.afterSandbox_childPc (ws : Workspace) : (afterSandbox ws).childPc = none := by
  unfold afterSandbox
  repeat' split
  all_goals rfl

theorem DeletePc.next_childless {pc : DeletePc} {d : Did DeletePc} (h : pc.next id a w = some d) :
    Body.Childless (.delete pc) (d.inBody .delete) := by
  intro hpc
  suffices hs : d.starts = none ∧ ∀ p, d.next = .goto p → p.childPc = none ∨ p.childPc = some .start by
    refine ⟨hs.1, fun b' hb' => ?_⟩
    obtain ⟨p, hp, rfl⟩ := Did.inBody_goto hb'
    exact hs.2 p hp
  revert h
  fun_cases DeletePc.next id pc a w
  case case1 =>
    rintro ⟨⟩
    refine ⟨rfl, fun p hp => ?_⟩
    cases hp
    split
    · exact .inr rfl
    · exact .inl rfl
  case case5 => rintro ⟨⟩; exact ⟨rfl, by rintro p ⟨⟩; exact .inl (afterSandbox_childPc _)⟩
  case case6 => rintro ⟨⟩; exact ⟨rfl, by rintro p ⟨⟩; split <;> exact .inl rfl⟩
  all_goals first
    | exact absurd hpc (Option.some_ne_none _)
    | (rintro ⟨⟩ <;> refine ⟨rfl, fun p hp => ?_⟩ <;> cases hp <;> exact .inl rfl)

theorem Body.childStep_of_next {input : Input} {b : Body} {d : Did Body} (h : b.next cfg id input a w = some d) :
    Body.ChildStep a b d := by
  have of_childless : ∀ {b : Body} {d : Did Body}, b.childPc = none → b.Childless d → Body.ChildStep a b d :=
    fun hb hc => .other hb (hc hb).1 (hc hb).2
  revert h
  fun_cases Body.next cfg id input b a w
  case case7 => rintro ⟨⟩
  all_goals
    intro h
    obtain ⟨d', hd, rfl⟩ := Option.map_eq_some_iff.1 h
  case case1 => exact of_childless rfl (CreatePc.next_childless hd)
  case case2 => exact of_childless rfl (ConnectPc.next_childless hd)
  case case3 => exact of_childless rfl (StopPc.next_childless hd)
  case case4 pc =>
    cases pc with
    | stop c => exact Body.childStep_of_within hd rfl (fun _ => rfl) (by rintro p ⟨⟩; exact .inr rfl)
    | connect c => exact Body.childStep_of_within hd rfl (fun _ => rfl) (by rintro p ⟨⟩)
  case case5 upgrade pc =>
    cases pc with
    | stop ws release c => exact Body.childStep_of_within hd rfl (fun _ => rfl) (by rintro p ⟨⟩; exact .inl rfl)
    | create previous blob c => exact Body.childStep_of_within hd rfl (fun _ => rfl) (by rintro p ⟨⟩; exact .inl rfl)
    | _ => exact of_childless rfl (RebuildPc.next_childless hd)
  case case6 pc =>
    cases pc with
    | stop ws c => exact Body.childStep_of_within hd rfl (fun _ => rfl) (by rintro p ⟨⟩; exact .inl rfl)
    | _ => exact of_childless rfl (DeletePc.next_childless hd)

/-! ## Processes -/

theorem Run.inFlight_of_childPc {r : Run} {c : ChildPc} (h : (Proc.run r).childPc = some c) : r.inFlight = true := by
  obtain ⟨ws, input, starter, phase⟩ := r
  cases phase <;> first | rfl | cases h

/-- The step of a run as a parent: the step of its child, or one that leaves children alone. -/
inductive Run.ChildStep (a : Answer) (r r' : Run) (st : Option Starts) : Prop
  | child {c : ChildPc} {input : Input} {o : Option (RunId × Input)} {next : Next ChildPc}
      (hc : (Proc.run r).childPc = some c) (hin : input.child = true) (h : ChildPc.Step input a c o next)
      (hst : st = o.map fun x => ⟨x.1, r.ws, x.2⟩) (hgoto : ∀ c', next = .goto c' → (Proc.run r').childPc = some c')
      (hout : (∀ c', next ≠ .goto c') → (Proc.run r').childPc = none ∨ (Proc.run r').childPc = some .start)
  | other (hc : (Proc.run r).childPc = none) (hst : st = none)
      (h : (Proc.run r').childPc = none ∨ (Proc.run r').childPc = some .start)

theorem Run.childPc_afterBody {r : Run} {next : Next Body} {c : ChildPc}
    (h : (Proc.run { r with phase := r.afterBody next }).childPc = some c) :
    ∃ b, next = .goto b ∧ b.childPc = some c := by
  cases next with
  | goto b => exact ⟨b, rfl, h⟩
  | returns =>
    rcases r.close_cases .ok with ⟨ok, he⟩ | he <;> simp [Proc.childPc, Run.afterBody, he] at h
  | throws error =>
    rcases r.close_cases (.failed error none) with ⟨ok, he⟩ | he <;> simp [Proc.childPc, Run.afterBody, he] at h

theorem Run.childStep_of_next {me : Pid} {r r' : Run} {st : Option Starts}
    (h : (Proc.run r).next cfg me a w = some (stmt, .run r', st)) : Run.ChildStep a r r' st := by
  obtain ⟨r₁, st', hr, he, rfl⟩ := Proc.next_run h
  cases he
  cases hr with
  | finished at_ ok => exact .other (by simp [Proc.childPc, at_]) rfl (.inl rfl)
  | retried at_ => exact .other (by simp [Proc.childPc, at_]) rfl (.inl rfl)
  | @body b d at_ hb =>
    have hpc : (Proc.run r).childPc = b.childPc := by simp [Proc.childPc, at_]
    have hafter : ∀ b', d.next = .goto b' →
        (Proc.run { r with phase := r.afterBody d.next }).childPc = b'.childPc := by
      rintro b' hb'
      simp [Proc.childPc, hb', Run.afterBody]
    have hclosed : (∀ b', d.next = .goto b' → b'.childPc = none ∨ b'.childPc = some .start) →
        (Proc.run { r with phase := r.afterBody d.next }).childPc = none ∨
          (Proc.run { r with phase := r.afterBody d.next }).childPc = some .start := by
      intro hnext
      cases hc : (Proc.run { r with phase := r.afterBody d.next }).childPc with
      | none => exact .inl rfl
      | some c =>
        obtain ⟨b', hb', hc'⟩ := Run.childPc_afterBody hc
        rw [← hc']
        exact hnext b' hb'
    cases Body.childStep_of_next hb with
    | @child c input next hc hin hstep hs hgoto hout =>
      refine .child (hpc.trans hc) hin hstep rfl ?_ fun hne => hclosed (hout hne)
      intro c' hc'
      obtain ⟨b', hb', hcb⟩ := hgoto c' hc'
      rw [hafter b' hb', hcb]
    | other hc hst hnext => exact .other (hpc.trans hc) (by rw [hst]; rfl) (hclosed hnext)

/-- A gc run starts the deletion of the head of its queue. -/
theorem Gc.starts_of_next {me : Pid} {g : Gc} {p' : Proc} {x : Starts}
    (h : (Proc.gc g).next cfg me a w = some (stmt, p', some x)) :
    ∃ queue known, g.pc = .delete (x.ws :: queue) known .start ∧ x.input = .deleteWorkspace false ∧ a = .started x.run := by
  obtain ⟨pc, hg, rfl⟩ := Proc.next_gc h
  obtain ⟨now, pc₀⟩ := g
  revert hg
  fun_cases GcPc.next now pc₀ a w
  case case6 id queue names child =>
    intro hg
    obtain ⟨d, hd, he⟩ := Option.map_eq_some_iff.1 hg
    have hstep := ChildPc.step_of_next hd
    simp only [Prod.mk.injEq] at he
    obtain ⟨-, -, hst⟩ := he
    obtain ⟨_, next, o⟩ := d
    cases hstep <;> cases hst
    exact ⟨_, _, rfl, rfl, rfl⟩
  all_goals rintro ⟨⟩

/-! ## The run store -/

/-- The status of a run that the process asks for with its next step. -/
def Proc.asks : Proc → Option RunRef
  | .call c => match c.pc with
    | .status ref _ => some ref
    | _ => none
  | .request r => match r.pc with
    | .status ws => ws.workflowRunId
    | .starting c => match c.pc with
      | .status ref _ => some ref
      | _ => none
    | _ => none
  | .reconcile r => match r.pc with
    | .status => some r.row.ref
    | _ => none
  | p => match p.childPc with
    | some (.await X _) => some (.run X)
    | _ => none

/-- `st` is a true status of what `ref` names; the store knows no admission. -/
def Sys.statusTrue (s : Sys) (ref : RunRef) (st : RunStatus) : Bool := match ref with
  | .admitting _ => decide (st = .unknown)
  | .run m => match s.procs m with
    | some (.run r) => match r.phase with
      | .ended true => decide (st = .completed)
      | .ended false => decide (st = .failed ∨ st = .cancelled)
      | _ => decide (st = .pending ∨ st = .running)
    | _ => decide (st = .unknown)

/-- The run store answers truthfully. -/
def Truthful (s : Sys) (e : SysEvent) : Prop := match e with
  | .act n (.status st) => (s.procs n).all (fun p => p.asks.all fun ref => s.statusTrue ref st) = true
  | _ => True

instance (s : Sys) (e : SysEvent) : Decidable (Truthful s e) := by
  unfold Truthful; split <;> infer_instance

theorem Truthful.inFlight {n : Pid} {p : Proc} {X : RunId} {r : Run} {st : RunStatus} (h : Truthful s (.act n (.status st)))
    (hp : s.procs n = some p) (hask : p.asks = some (.run X)) (hX : s.procs X = some (.run r)) (hf : r.inFlight = true) :
    st = .pending ∨ st = .running := by
  simp only [Truthful, hp, hask, Option.all_some, Sys.statusTrue, hX] at h
  obtain ⟨ws, input, starter, phase⟩ := r
  cases phase with
  | ended ok => cases hf
  | _ => exact of_decide_eq_true h

end Zedspaces.Lifecycle
