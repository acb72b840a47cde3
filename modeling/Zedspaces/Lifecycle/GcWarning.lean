/-
The warning week of `gc`. `stepWarnRetention` stamps `retention_warned_at` "a week before deletion", and
`stepGcCandidates` selects a workspace for deletion once its deadline has passed and it carries a stamp.
The selection does not look at the age of the stamp: a workspace whose deadline passed before any gc run
warned it is warned and selected by the same run (`gc_warns_and_deletes_at_once`).

The week is kept when every selected stamp is a week old already and no warning update overtakes a
selection. The assertion carried through a run is about the selected workspaces only: stamps never get
younger, and a stamp is replaced by nothing but a warning update.
-/
import Zedspaces.Lifecycle.Effects

namespace Zedspaces.Lifecycle

open Lib Lib.System

variable {cfg : Config}

/-- The stamp of the workspace, if it has one, is at least a week old. -/
def World.WarnedAWeekAgo (w : World) (id : WsId) : Prop :=
  ∀ stamped ∈ w.hist.warnStampedAt id, stamped + 7 * dayMs ≤ w.now

instance (w : World) (id : WsId) : Decidable (w.WarnedAWeekAgo id) :=
  inferInstanceAs (Decidable (∀ stamped ∈ w.hist.warnStampedAt id, stamped + 7 * dayMs ≤ w.now))

/-- A gc run selects only workspaces warned a week ago, and stamps none that is selected already. -/
def WarnsAWeekAhead (s : Sys) (e : SysEvent) : Prop := match s.acting e with
  | some (.gc ⟨now, .expired⟩) => ∀ id ∈ expiredWorkspaces now s.world, s.world.WarnedAWeekAgo id
  | some (.gc ⟨_, .warnUpdate selected⟩) => ∀ id ∈ selected, ¬ s.Held id
  | _ => True

instance (s : Sys) (e : SysEvent) : Decidable (WarnsAWeekAhead s e) := by
  unfold WarnsAWeekAhead; split <;> infer_instance

/-! ## Stamps -/

section
variable {w : World} {stmt : Stmt} {id : WsId}

/-- A stamp is there before a statement, or the statement is the warning update. -/
theorem Stmt.exec_warnStampedAt {stamped : Int} (h : (stmt.exec cfg w).hist.warnStampedAt id = some stamped) :
    w.hist.warnStampedAt id = some stamped ∨ ∃ now selected, stmt = .warnRetention now selected ∧ id ∈ selected := by
  cases stmt with
  | warnRetention now selected =>
    by_cases hm : id ∈ selected
    · exact .inr ⟨now, selected, rfl, hm⟩
    · left
      simpa [Stmt.exec, stepWarnRetention, hm] using h
  | markStopped j reason state size =>
    left
    by_cases hj : id = j
    · subst hj
      simp [Stmt.exec, stepMarkStopped] at h
    · simpa [Stmt.exec, stepMarkStopped, hj] using h
  | deleteSandbox name how => left; cases how <;> exact h
  | _ => exact .inl h

theorem World.WarnedAWeekAgo.exec (h : w.WarnedAWeekAgo id)
    (hs : ∀ now selected, stmt = .warnRetention now selected → id ∉ selected) :
    (stmt.exec cfg w).WarnedAWeekAgo id := by
  intro stamped hm
  have hnow := stmt.now_le_exec cfg w
  rcases Stmt.exec_warnStampedAt hm with hm | ⟨now, selected, rfl, hsel⟩
  · exact (h stamped hm).trans hnow
  · exact absurd hsel (hs now selected rfl)

end

/-! ## The selection -/

section
variable {now : Int} {pc pc' : GcPc} {a : Answer} {w : World} {stmt : Stmt} {st : Option Starts}

theorem ChildPc.mayStart_next {input : Input} {c c' : ChildPc} {d : Did ChildPc} (h : c.next input a w = some d)
    (hd : d.next = .goto c') (hc : c'.mayStart = true) : c.mayStart = true := by
  revert h hd
  fun_cases ChildPc.next input c a w <;> rintro ⟨⟩ hd <;> cases hd
  all_goals first | rfl | cases hc

/-- A gc run selects in one step and afterwards only lets go. -/
theorem GcPc.held_next (h : pc.next now a w = some (stmt, pc', st)) :
    (∀ id ∈ pc'.held, id ∈ pc.held) ∨ (pc = .expired ∧ pc'.held = expiredWorkspaces now w) := by
  revert h
  fun_cases GcPc.next now pc a w
  case case3 => rintro ⟨⟩; exact .inr ⟨rfl, rfl⟩
  case case6 id queue known child =>
    intro h
    obtain ⟨d, hd, he⟩ := Option.map_eq_some_iff.1 h
    cases he
    left
    cases hn : d.next with
    | goto c' =>
      intro i hi
      by_cases hc' : c'.mayStart = true
      · simpa [afterChild, held, hc', ChildPc.mayStart_next hd hn hc'] using hi
      · have hq : i ∈ queue := by simpa [afterChild, held, hc'] using hi
        by_cases hc : child.mayStart = true <;> simp [held, hc, hq]
    | returns =>
      intro i (hi : i ∈ queue)
      by_cases hc : child.mayStart = true <;> simp [held, hc, hi]
    | throws error => rintro i ⟨⟩
  all_goals rintro ⟨⟩ <;> first | exact .inl fun _ h => h | exact .inl fun _ h => absurd h List.not_mem_nil

/-- A process selects in one step of a gc run and afterwards only lets go. -/
theorem Proc.held_next {cfg : Config} {me : Pid} {p p' : Proc} (h : p.next cfg me a w = some (stmt, p', st)) :
    (∀ id ∈ p'.held, id ∈ p.held) ∨
      ∃ g, p = .gc g ∧ g.pc = .expired ∧ p'.held = expiredWorkspaces g.now w := by
  cases p with
  | run r => obtain ⟨r', st', -, rfl, -⟩ := Proc.next_run h; exact .inl fun _ h => h
  | call c => obtain ⟨pc, -, rfl⟩ := Proc.next_call h; exact .inl fun _ h => h
  | request r => obtain ⟨pc, -, rfl⟩ := Proc.next_request h; exact .inl fun _ h => h
  | reconcile r => obtain ⟨pc, -, rfl, -⟩ := Proc.next_reconcile h; exact .inl fun _ h => h
  | gc g =>
    obtain ⟨pc, hg, rfl⟩ := Proc.next_gc h
    rcases GcPc.held_next hg with hh | ⟨hp, hh⟩
    · exact .inl hh
    · exact .inr ⟨g, rfl, hp, hh⟩

end

/-! ## Runs -/

/-- Every workspace a process holds selected was warned a week ago. -/
def Proc.HeldWarned (p : Proc) (w : World) : Prop := ∀ id ∈ p.held, w.WarnedAWeekAgo id

/-- A warning update stamps no workspace that is held. -/
def WarnsNoHeld (s : Sys) (stmt : Stmt) : Prop :=
  ∀ now selected, stmt = .warnRetention now selected → ∀ id ∈ selected, ¬ s.Held id

theorem heldWarned_outline (cfg : Config) :
    WorldOutline cfg WarnsAWeekAhead WarnsNoHeld (fun _ => True) (fun p w => p.HeldWarned w) where
  init _ := trivial
  whole _ _ _ _ := trivial
  each := by
    intro s stmt k q _ hk hj hq id hid
    refine (hq id hid).exec fun now selected hs hsel => ?_
    exact hj now selected hs id hsel ⟨k, q, hk, hid⟩
  arrive := by
    intro s n i stmt p _ _ hi
    constructor
    · rcases Arrival.accept_cases hi with ⟨_, _, _, -, -, rfl, -⟩ | ⟨rfl, -⟩ <;> rintro now selected ⟨⟩
    · rcases Arrival.accept_cases hi with ⟨_, _, _, -, -, -, rfl⟩ | ⟨-, ⟨_, _, -, rfl⟩ | ⟨_, rfl⟩ | ⟨_, rfl⟩ | rfl⟩ <;>
        rintro id ⟨⟩
  act := by
    intro s n a p stmt p' st _ hg hp _ hn
    constructor
    · rintro now selected rfl
      obtain rfl := (Proc.next_does hn).warnRetention_of
      simpa only [WarnsAWeekAhead, Sys.acting, hp] using hg
    · intro hkept id hid
      rcases Proc.held_next hn with hsub | ⟨⟨now, pc⟩, rfl, rfl, hsel⟩
      · exact hkept id (hsub id hid)
      · simp only [WarnsAWeekAhead, Sys.acting, hp] at hg
        rw [hsel] at hid
        refine (hg id hid).exec ?_
        rintro now' selected rfl
        cases (Proc.next_does hn).warnRetention_of
  fresh _ _ _ _ := by rintro id ⟨⟩
  ended _ _ := by rintro id ⟨⟩
  env _ e _ _ := by cases e <;> rintro now selected ⟨⟩

/-- A gc run about to delete a workspace stamped it, or another did, at least a week ago. -/
theorem gc_warning_week {s : Sys} {n : Pid} {id : WsId} (h : (lifecycle cfg).Reach WarnsAWeekAhead s)
    (hd : s.aboutToDelete n = some id) : s.world.WarnedAWeekAgo id := by
  have hs := (heldWarned_outline cfg).outline.holds h
  obtain ⟨p, hp, hid⟩ := Sys.held_of_aboutToDelete hd
  exact hs.each n p hp id hid

/-- A workspace stopped for 33 days and warned on day 25 is deleted with its week over. -/
theorem gc_warning_week_kept : ∃ s : Sys, s.aboutToDelete 5 = some 0 ∧
    ∃ stamped, s.world.hist.warnStampedAt 0 = some stamped ∧ stamped + 7 * dayMs ≤ s.world.now := by
  obtain ⟨s, hr, hd, hm⟩ := exists_reach_of_execs (G := WarnsAWeekAhead)
    (fun s : Sys => s.aboutToDelete 5 = some 0 ∧ s.world.hist.warnStampedAt 0 = some (25 * dayMs))
    (createsWorkspace 0 0 1 7 ++ stops 0 2 3 ++ [.env (.tick 2160000000), .arrive 4 .gc] ++ steps 4 4 ++
      [.env (.tick 691200000), .arrive 5 .gc] ++ steps 5 4)
    (lifecycle_init deployment 0) (by decide) (by decide)
  exact ⟨s, hd, _, hm, gc_warning_week hr hd _ hm⟩

/-- The cron was off for 31 days: the run that warns a workspace selects it for deletion too. -/
theorem gc_warns_and_deletes_at_once : ¬ ∀ (cfg : Config) (s : Sys) (n : Pid) (id : WsId),
    (lifecycle cfg).Reach System.free s → s.aboutToDelete n = some id → s.world.WarnedAWeekAgo id := by
  intro h
  obtain ⟨s, hr, hd, hw⟩ := exists_reach_of_exec
    (fun s : Sys => s.aboutToDelete 4 = some 0 ∧ ¬ s.world.WarnedAWeekAgo 0)
    (createsWorkspace 0 0 1 7 ++ stops 0 2 3 ++ [.env (.tick 2678400000), .arrive 4 .gc] ++ steps 4 4)
    (lifecycle_init deployment 0) (by decide)
  exact hw (h deployment s 4 0 hr hd)

end Zedspaces.Lifecycle
