/-
The run loop of the server (`Supervisor::run`) with what decides between a respawn and giving up: the exits of the last
ten minutes, pruned from the front, and the place in the backoff table. The pruned list is what the window shows of all
exits (`Sound`), so the loop gives up exactly at the first exit that is the sixth within ten minutes
(`crash_loop_window`).
-/
import Mathlib.Data.Nat.Basic
import Zedspaces.Lib.System
import Zedspaces.Lib.Window

namespace Zedspaces.Supervisor.CrashLoop

open Lib

/-! ## The loop -/

/-- `RESTART_BACKOFF`, in seconds -/
def restartBackoff : List Nat := [1, 2, 4, 8, 16, 30]

/-- A duration of seconds, in the nanoseconds that an `Instant` counts. -/
def seconds (n : Nat) : Nat := n * 1000000000

/-- `CRASH_LOOP_LIMIT` -/
def crashLoopLimit : Nat × Nat := (6, seconds 600)

/-- `STABLE_AFTER` -/
def stableAfter : Nat := seconds 60

/-- The points of the loop between two of which something may happen. -/
inductive RunPc where
  /-- `while !self.shutdown.is_cancelled()` -/
  | head (first : Bool)
  | clearStaleServer
  | beforeRespawn
  | spawn
  /-- the pid is published, the shutdown looked at once more -/
  | spawned (started : Nat)
  | reap
  | superviseChild (started : Nat)
  | exited (started : Nat)
  | crashed (started : Nat)
  | pause (seconds : Nat)
  | crashLoop
  | stopped
  | panicked
  deriving DecidableEq, Repr

structure RunLoop where
  pc : RunPc
  cancelled : Bool
  backoff : Nat
  exits : List Nat
  restarts : Nat
  lastError : Option String
  deriving DecidableEq, Repr

def RunLoop.new : RunLoop := ⟨.head true, false, 0, [], 0, none⟩

/-- What happens: the shutdown fires, a step with nothing to wait for, the answer to what the loop waits for. -/
inductive RunEvent where
  | shutdown
  | goOn
  /-- `started`, and the spawn succeeds -/
  | spawned (now : Nat)
  | spawnFailed (message : String) (now : Nat)
  /-- `now` of the exit, and the reading of `started.elapsed()` -/
  | crashed (now later : Nat)
  | slept
  | interrupted
  deriving DecidableEq, Repr

/-- The readings of the clock. -/
def RunEvent.clock : RunEvent → List Nat
  | spawned now | spawnFailed _ now => [now]
  | crashed now later => [now, later]
  | _ => []

/-- `exits.pop_front()` while the front is too old. -/
def prune (now : Nat) (exits : List Nat) : List Nat := exits.dropWhile fun exit => crashLoopLimit.2 < now - exit

namespace RunLoop

def goto (s : RunLoop) (pc : RunPc) : RunLoop := { s with pc }

/-- `self.pause(&mut backoff)`, up to its sleep -/
def enterPause (s : RunLoop) : RunLoop :=
  match restartBackoff[min s.backoff (restartBackoff.length - 1)]? with
  | some seconds => { s with backoff := s.backoff + 1, pc := .pause seconds }
  | none => s.goto .panicked

/-- The accounting of an exit that was not asked for. -/
def afterCrash (s : RunLoop) (started now later : Nat) : RunLoop :=
  let exits := prune now (s.exits ++ [now])
  let s := { s with exits, restarts := s.restarts + 1 }
  if crashLoopLimit.1 ≤ exits.length then { s with lastError := some "server_crash_loop", pc := .crashLoop }
  else
    let backoff := if stableAfter ≤ later - started then 0 else s.backoff
    { s with backoff }.enterPause

def step (s : RunLoop) : RunEvent → Option RunLoop
  | .shutdown => some { s with cancelled := true }
  | .goOn => match s.pc with
    | .head first => some (s.goto (if s.cancelled then .stopped else if first then .spawn else .clearStaleServer))
    | .clearStaleServer => some (s.goto .beforeRespawn)
    | .beforeRespawn => some (s.goto (if s.cancelled then .stopped else .spawn))
    | .spawned started => some (s.goto (if s.cancelled then .reap else .superviseChild started))
    | .reap => some (s.goto .stopped)
    | .superviseChild started => some (s.goto (.exited started))
    -- `stopping` is read here, once
    | .exited started => some (s.goto (if s.cancelled then .stopped else .crashed started))
    | _ => none
  | .spawned now => if s.pc = .spawn then some (s.goto (.spawned now)) else none
  | .spawnFailed message _ =>
    if s.pc = .spawn then some { s with lastError := some ("server spawn failed: " ++ message) }.enterPause else none
  | .crashed now later => match s.pc with
    | .crashed started => some (s.afterCrash started now later)
    | _ => none
  | .slept => match s.pc with
    | .pause _ => some (s.goto (.head false))
    | _ => none
  | .interrupted => match s.pc with
    | .pause _ => if s.cancelled then some (s.goto .stopped) else none
    | _ => none

end RunLoop

def system : System RunLoop RunEvent := ⟨(· = .new), RunLoop.step⟩

/-! ## All exits and those within the window -/

/-- The exit times of a history. -/
def exitTimes (es : List RunEvent) : List Nat := es.filterMap fun
  | .crashed now _ => some now
  | _ => none

/-- `exit` lies in the ten minutes up to `now`. -/
def within (now exit : Nat) : Bool := decide (now - exit ≤ crashLoopLimit.2)

/-- How many of the exits lie in the ten minutes up to `now`. -/
def countWithin (now : Nat) (exits : List Nat) : Nat := (exits.filter (within now)).length

theorem moves_within : Moves within where
  later := by
    intro now later exit hle h
    have hlater : later - exit ≤ crashLoopLimit.2 := of_decide_eq_true h
    exact decide_eq_true (by omega)
  newer := by
    intro now exit newer hle h
    have hat : now - exit ≤ crashLoopLimit.2 := of_decide_eq_true h
    exact decide_eq_true (by omega)

theorem prune_eq {exits : List Nat} (horder : exits.Pairwise (· ≤ ·)) (now : Nat) :
    prune now exits = exits.filter (within now) := by
  rw [← dropWhile_eq_filter moves_within horder now]
  unfold prune
  congr 1
  funext exit
  exact decide_eq_decide.2 Nat.not_le.symm |>.trans decide_not

theorem exitTimes_concat (es : List RunEvent) (e : RunEvent) : exitTimes (es ++ [e]) = exitTimes es ++ exitTimes [e] :=
  List.filterMap_append ..

theorem enterPause_cases (s : RunLoop) :
    ∃ seconds ∈ restartBackoff, s.enterPause = { s with backoff := s.backoff + 1, pc := .pause seconds } := by
  have hlt : min s.backoff (restartBackoff.length - 1) < restartBackoff.length :=
    Nat.lt_of_le_of_lt (Nat.min_le_right ..) (by decide)
  refine ⟨restartBackoff[min s.backoff (restartBackoff.length - 1)], List.getElem_mem hlt, ?_⟩
  unfold RunLoop.enterPause
  rw [List.getElem?_eq_getElem hlt]

/-- The exits of the list are those of the history within the window at the last one; the points of the loop tell what
they say. -/
structure Sound (es : List RunEvent) (s : RunLoop) : Prop where
  exits : ∀ before now, exitTimes es = before ++ [now] → s.exits = (exitTimes es).filter (within now)
  fresh : exitTimes es = [] → s.exits = []
  gaveUp : s.pc = .crashLoop → s.exits.length = 6
  goesOn : s.pc ≠ .crashLoop → s.exits.length < 6
  first : ∀ before now after, exitTimes es = before ++ now :: after → after ≠ [] → countWithin now (before ++ [now]) < 6
  afterExit : ∀ before now later, es = before ++ [.crashed now later] →
    s.pc = .crashLoop ∨ ∃ seconds ∈ restartBackoff, s.pc = .pause seconds
  stopped : s.pc = .stopped ∨ s.pc = .reap → s.cancelled = true
  pause : ∀ seconds, s.pc = .pause seconds → seconds ∈ restartBackoff
  noPanic : s.pc ≠ .panicked

variable {es : List RunEvent} {e : RunEvent} {s t : RunLoop}

/-- An event that is no exit. -/
theorem Sound.frame (h : Sound es s) (hquiet : exitTimes [e] = []) (hexits : t.exits = s.exits)
    (hgaveUp : t.pc = .crashLoop ↔ s.pc = .crashLoop) (hstopped : t.pc = .stopped ∨ t.pc = .reap → t.cancelled = true)
    (hpause : ∀ seconds, t.pc = .pause seconds → seconds ∈ restartBackoff) (hpanic : t.pc ≠ .panicked) :
    Sound (es ++ [e]) t := by
  have htimes : exitTimes (es ++ [e]) = exitTimes es := by rw [exitTimes_concat, hquiet, List.append_nil]
  constructor
  · rw [htimes, hexits]
    exact h.exits
  · rw [htimes, hexits]
    exact h.fresh
  · rw [hexits]
    exact fun hpc => h.gaveUp (hgaveUp.1 hpc)
  · rw [hexits]
    exact fun hpc => h.goesOn (fun hpc' => hpc (hgaveUp.2 hpc'))
  · rw [htimes]
    exact h.first
  · intro before now later heq
    obtain ⟨-, he⟩ := List.append_inj' heq rfl
    rw [he] at hquiet
    cases hquiet
  · exact hstopped
  · exact hpause
  · exact hpanic

/-- A new last exit. -/
theorem Sound.exit (h : Sound es s) (hpc : s.pc = .crashed started) (horder : (exitTimes es ++ [now]).Pairwise (· ≤ ·)) :
    prune now (s.exits ++ [now]) = (exitTimes es ++ [now]).filter (within now) ∧
      (prune now (s.exits ++ [now])).length ≤ 6 ∧
      ∀ before x after, exitTimes es ++ [now] = before ++ x :: after → after ≠ [] → countWithin x (before ++ [x]) < 6 := by
  have hless : s.exits.length < 6 := h.goesOn (by rw [hpc]; exact RunPc.noConfusion)
  obtain ⟨htimes, -, hlast⟩ := List.pairwise_append.1 horder
  have hshown : (s.exits ++ [now]).Pairwise (· ≤ ·) ∧
      (s.exits ++ [now]).filter (within now) = (exitTimes es ++ [now]).filter (within now) := by
    rcases List.eq_nil_or_concat (exitTimes es) with hnil | ⟨before, last, hconcat⟩
    · rw [h.fresh hnil, hnil]
      exact ⟨List.pairwise_singleton .., rfl⟩
    · rw [List.concat_eq_append] at hconcat
      have hle : last ≤ now := hlast last (by rw [hconcat]; exact List.mem_append_right _ (List.mem_singleton_self last)) now
        (List.mem_singleton_self now)
      rw [h.exits before last hconcat]
      refine ⟨horder.sublist (List.filter_sublist.append_right [now]), ?_⟩
      rw [List.filter_append, List.filter_append, filter_fresh_filter moves_within hle]
  refine ⟨(prune_eq hshown.1 now).trans hshown.2, ?_, fun before x after heq hafter => ?_⟩
  · rw [prune_eq hshown.1 now]
    have hlength := List.length_filter_le (within now) (s.exits ++ [now])
    rw [List.length_append, List.length_singleton] at hlength
    omega
  · obtain ⟨after', y, rfl⟩ := (List.eq_nil_or_concat after).resolve_left hafter
    rw [List.concat_eq_append, ← List.cons_append, ← List.append_assoc] at heq
    obtain ⟨heq, -⟩ := List.append_inj' heq rfl
    by_cases hlater : after' = []
    · -- the exit before this one is what the list was pruned for
      subst hlater
      have hexits := h.exits before x heq
      rw [heq] at hexits
      unfold countWithin
      rwa [← hexits]
    · exact h.first before x after' heq hlater

theorem Sound.crash (h : Sound es s) (hpc : s.pc = .crashed started) (horder : (exitTimes es ++ [now]).Pairwise (· ≤ ·)) :
    Sound (es ++ [.crashed now later]) (s.afterCrash started now later) := by
  obtain ⟨hexits, hsix, hfirst⟩ := h.exit hpc horder
  have htimes : exitTimes (es ++ [.crashed now later]) = exitTimes es ++ [now] := exitTimes_concat ..
  have hexits' : ∀ before x, exitTimes es ++ [now] = before ++ [x] →
      prune now (s.exits ++ [now]) = (exitTimes es ++ [now]).filter (within x) := by
    intro before x heq
    obtain ⟨-, hx⟩ := List.append_inj' heq rfl
    rw [← (List.cons.inj hx).1]
    exact hexits
  have hne : exitTimes es ++ [now] ≠ [] := List.append_ne_nil_of_right_ne_nil _ (List.cons_ne_nil now [])
  unfold RunLoop.afterCrash
  dsimp only
  split
  · next hlimit =>
    constructor
    · rw [htimes]
      exact hexits'
    · rw [htimes]
      exact fun hnil => absurd hnil hne
    · exact fun _ => Nat.le_antisymm hsix hlimit
    · exact fun hpc => absurd rfl hpc
    · rw [htimes]
      exact hfirst
    · exact fun _ _ _ _ => .inl rfl
    · rintro (hpc | hpc) <;> cases hpc
    · exact fun _ hpc => nomatch hpc
    · exact fun hpc => nomatch hpc
  · next hlimit =>
    obtain ⟨seconds, hseconds, hpause⟩ := enterPause_cases
      { s with exits := prune now (s.exits ++ [now]), restarts := s.restarts + 1,
               backoff := if stableAfter ≤ later - started then 0 else s.backoff }
    rw [hpause]
    constructor
    · rw [htimes]
      exact hexits'
    · rw [htimes]
      exact fun hnil => absurd hnil hne
    · exact fun hpc => nomatch hpc
    · exact fun _ => Nat.lt_of_not_le hlimit
    · rw [htimes]
      exact hfirst
    · exact fun _ _ _ _ => .inr ⟨seconds, hseconds, rfl⟩
    · rintro (hpc | hpc) <;> cases hpc
    · rintro _ ⟨⟩
      exact hseconds
    · exact fun hpc => nomatch hpc

/-- A point that says nothing of the exits. -/
def RunPc.plain : RunPc → Bool
  | .crashLoop | .panicked | .pause _ => false
  | _ => true

theorem Sound.goto (h : Sound es s) {pc : RunPc} (hquiet : exitTimes [e] = []) (hpc : s.pc ≠ .crashLoop)
    (hplain : pc.plain = true) (hstopped : pc = .stopped ∨ pc = .reap → s.cancelled = true) :
    Sound (es ++ [e]) (s.goto pc) := by
  refine h.frame hquiet rfl ⟨?_, fun hloop => absurd hloop hpc⟩ hstopped ?_ ?_
  · rintro rfl
    cases hplain
  · rintro seconds rfl
    cases hplain
  · rintro rfl
    cases hplain

/-- A step that waits for nothing. -/
theorem Sound.goOn (h : Sound es s) (hstep : s.step .goOn = some t) : Sound (es ++ [.goOn]) t := by
  have hpc : s.pc ≠ .crashLoop := by
    intro hpc
    simp [RunLoop.step, hpc] at hstep
  unfold RunLoop.step at hstep
  cases hat : s.pc with
  | head first =>
    rw [hat] at hstep
    cases hstep
    cases hcancelled : s.cancelled with
    | true => exact h.goto rfl hpc rfl fun _ => hcancelled
    | false => cases first <;> exact h.goto rfl hpc rfl (by simp)
  | clearStaleServer =>
    rw [hat] at hstep
    cases hstep
    exact h.goto rfl hpc rfl (by simp)
  | beforeRespawn =>
    rw [hat] at hstep
    cases hstep
    cases hcancelled : s.cancelled with
    | true => exact h.goto rfl hpc rfl fun _ => hcancelled
    | false => exact h.goto rfl hpc rfl (by simp)
  | spawned started =>
    rw [hat] at hstep
    cases hstep
    cases hcancelled : s.cancelled with
    | true => exact h.goto rfl hpc rfl fun _ => hcancelled
    | false => exact h.goto rfl hpc rfl (by simp)
  | reap =>
    rw [hat] at hstep
    cases hstep
    exact h.goto rfl hpc rfl fun _ => h.stopped (.inr hat)
  | superviseChild started =>
    rw [hat] at hstep
    cases hstep
    exact h.goto rfl hpc rfl (by simp)
  | exited started =>
    rw [hat] at hstep
    cases hstep
    cases hcancelled : s.cancelled with
    | true => exact h.goto rfl hpc rfl fun _ => hcancelled
    | false => exact h.goto rfl hpc rfl (by simp)
  | spawn | crashed | pause | crashLoop | stopped | panicked =>
    rw [hat] at hstep
    cases hstep

theorem exitTimes_sublist (es : List RunEvent) (now later : Nat) :
    (exitTimes es ++ [now]).Sublist ((es ++ [RunEvent.crashed now later]).flatMap RunEvent.clock) := by
  rw [List.flatMap_append]
  refine List.Sublist.append ?_ ((List.nil_sublist [later]).cons_cons now)
  induction es with
  | nil => exact .slnil
  | cons e es ih =>
    have hone : (exitTimes [e]).Sublist e.clock := by
      cases e with
      | crashed now later => exact (List.nil_sublist [later]).cons_cons now
      | shutdown | goOn | spawned | spawnFailed | slept | interrupted => exact List.nil_sublist _
    have hcons : exitTimes (e :: es) = exitTimes [e] ++ exitTimes es := List.filterMap_append (l := [e])
    rw [hcons, List.flatMap_cons]
    exact hone.append ih

theorem Sound.step (h : Sound es s) (hclock : ((es ++ [e]).flatMap RunEvent.clock).Pairwise (· ≤ ·))
    (hstep : s.step e = some t) : Sound (es ++ [e]) t := by
  cases e with
  | shutdown =>
    cases hstep
    exact h.frame rfl rfl Iff.rfl (fun _ => rfl) h.pause h.noPanic
  | goOn => exact h.goOn hstep
  | spawned now =>
    obtain ⟨hat, hstep⟩ := Option.ite_none_right_eq_some.1 hstep
    cases hstep
    exact h.goto rfl (by rw [hat]; exact RunPc.noConfusion) rfl (by simp)
  | spawnFailed message now =>
    obtain ⟨hat, hstep⟩ := Option.ite_none_right_eq_some.1 hstep
    cases hstep
    obtain ⟨seconds, hseconds, hpause⟩ :=
      enterPause_cases { s with lastError := some ("server spawn failed: " ++ message) }
    rw [hpause]
    refine h.frame rfl rfl ⟨(fun hpc => nomatch hpc), fun hpc => ?_⟩ (by simp) ?_ (by simp)
    · rw [hat] at hpc
      cases hpc
    · rintro _ ⟨⟩
      exact hseconds
  | crashed now later =>
    cases hat : s.pc <;> simp only [RunLoop.step, hat] at hstep <;> cases hstep
    exact h.crash hat (hclock.sublist (exitTimes_sublist es now later))
  | slept =>
    cases hat : s.pc <;> simp only [RunLoop.step, hat] at hstep <;> cases hstep
    exact h.goto rfl (by rw [hat]; exact RunPc.noConfusion) rfl (by simp)
  | interrupted =>
    cases hat : s.pc <;> simp only [RunLoop.step, hat] at hstep
    case pause seconds =>
      obtain ⟨hcancelled, hstep⟩ := Option.ite_none_right_eq_some.1 hstep
      cases hstep
      exact h.goto rfl (by rw [hat]; exact RunPc.noConfusion) rfl fun _ => hcancelled
    all_goals cases hstep

theorem sound_new : Sound [] .new where
  exits before now h := absurd h.symm (List.append_ne_nil_of_right_ne_nil before (List.cons_ne_nil now []))
  fresh _ := rfl
  gaveUp h := nomatch h
  goesOn _ := by decide
  first before now after h := absurd h.symm (List.append_ne_nil_of_right_ne_nil before (List.cons_ne_nil now after))
  afterExit before now later h := absurd h.symm (List.append_ne_nil_of_right_ne_nil before (List.cons_ne_nil _ []))
  stopped h := by rcases h with h | h <;> cases h
  pause _ h := nomatch h
  noPanic h := nomatch h

theorem sound_of_exec (hclock : (es.flatMap RunEvent.clock).Pairwise (· ≤ ·)) (h : system.exec .new es = some s) :
    Sound es s := by
  have hall : (es.flatMap RunEvent.clock).Pairwise (· ≤ ·) → Sound es s := by
    refine System.exec_invariant (I := fun es s => (es.flatMap RunEvent.clock).Pairwise (· ≤ ·) → Sound es s)
      (fun _ => sound_new) (fun es e s t hsound hstep hclock => ?_) h
    refine (hsound ?_).step hclock hstep
    rw [List.flatMap_append] at hclock
    exact (List.pairwise_append.1 hclock).1
  exact hall hclock

/-- In every history of the loop the server has been given up exactly if the last exit was the sixth within ten minutes,
and no exit before it was. After any other exit the loop pauses for a time of the table, and from a pause that the
shutdown does not end it spawns the server again; it stops only once the shutdown has fired. -/
theorem crash_loop_window (es : List RunEvent) (s : RunLoop) (hclock : (es.flatMap RunEvent.clock).Pairwise (· ≤ ·))
    (h : system.exec .new es = some s) :
    (s.pc = .crashLoop ↔
      ∃ before now, exitTimes es = before ++ [now] ∧ countWithin now (before ++ [now]) = 6) ∧
    (∀ before now after, exitTimes es = before ++ now :: after → after ≠ [] → countWithin now (before ++ [now]) < 6) ∧
    (∀ before now later, es = before ++ [.crashed now later] → s.pc ≠ .crashLoop →
      ∃ seconds ∈ restartBackoff, s.pc = .pause seconds) ∧
    (∀ seconds, s.pc = .pause seconds → s.cancelled = false → ∀ e t, s.step e = some t → e = .shutdown ∨
      e = .slept ∧ ∀ started, (system.exec t [.goOn, .goOn, .goOn, .spawned started]).map RunLoop.pc =
        some (.spawned started)) ∧
    (s.pc = .stopped → s.cancelled = true) ∧ s.pc ≠ .panicked := by
  have hsound := sound_of_exec hclock h
  refine ⟨⟨fun hpc => ?_, ?_⟩, hsound.first, fun before now later heq hpc => ?_, fun seconds hpc hcancelled e t hstep => ?_,
    fun hpc => hsound.stopped (.inl hpc), hsound.noPanic⟩
  · have hsix := hsound.gaveUp hpc
    rcases List.eq_nil_or_concat (exitTimes es) with hnil | ⟨before, now, hconcat⟩
    · rw [hsound.fresh hnil] at hsix
      cases hsix
    · rw [List.concat_eq_append] at hconcat
      refine ⟨before, now, hconcat, ?_⟩
      rw [hsound.exits before now hconcat, hconcat] at hsix
      exact hsix
  · rintro ⟨before, now, hconcat, hsix⟩
    by_contra hpc
    have hless := hsound.goesOn hpc
    rw [hsound.exits before now hconcat, hconcat] at hless
    exact absurd hsix (Nat.ne_of_lt hless)
  · exact (hsound.afterExit before now later heq).resolve_left hpc
  · cases e with
    | shutdown => exact .inl rfl
    | slept =>
      rw [RunLoop.step, hpc] at hstep
      cases hstep
      refine .inr ⟨rfl, fun started => ?_⟩
      simp [System.exec, system, RunLoop.step, RunLoop.goto, hcancelled]
    | goOn | spawned | spawnFailed | crashed | interrupted =>
      simp [RunLoop.step, hpc, hcancelled] at hstep

/-- A server that lives for a second, with the exits `gap` seconds apart. -/
def crashes (gap : Nat) : List RunEvent :=
  [.goOn, .spawned 0, .goOn, .goOn, .goOn, .crashed (seconds 1) (seconds 1)] ++
    (List.range 5).flatMap fun n => [.slept, .goOn, .goOn, .goOn, .spawned (seconds (1 + (n + 1) * gap)),
      .goOn, .goOn, .goOn, .crashed (seconds (2 + (n + 1) * gap)) (seconds (2 + (n + 1) * gap))]

/-- The sixth exit within ten minutes, and a little later. -/
example : (system.exec .new (crashes 119)).map RunLoop.pc = some .crashLoop ∧
    (system.exec .new (crashes 120)).map RunLoop.pc = some (.pause 30) := by decide

theorem crash_loop_window_sixth : ∃ s, system.exec .new (crashes 100) = some s ∧ s.pc = .crashLoop := by
  obtain ⟨s, hs⟩ := Option.isSome_iff_exists.1 (show (system.exec .new (crashes 100)).isSome = true by decide)
  refine ⟨s, hs, (crash_loop_window (crashes 100) s (by decide) hs).1.2 ?_⟩
  exact ⟨(exitTimes (crashes 100)).dropLast, seconds 502, by decide, by decide⟩

end Zedspaces.Supervisor.CrashLoop
