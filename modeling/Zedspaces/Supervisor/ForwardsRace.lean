/-
`insert` and `remove` beside an activity ping. An operation changes the table under the lock and bumps the
change counter only after it has let the lock go. The ping reads the counter, waits for the directive, and
replaces the table if the counter is still what it read. Between the lock and the bump of another caller
that check passes on a table that has changed: the directive's older list undoes the change
(`ping_undoes_insert`). It undoes nothing when each change made since the counter was read has been bumped
(`ping_undoes_nothing`).
-/
import Zedspaces.Lib.System
import Zedspaces.Supervisor.Forwards

namespace Zedspaces.Supervisor

open Std Lib Lib.System

abbrev CallId := Nat

/-- Where the ping is: before it reads the counter, waiting for the directive with the reading, or about to
bump the counter after a replacement. -/
inductive PingPc where
  | idle
  | posted (generation : Nat)
  | bump
  deriving DecidableEq, Repr

/-- The table and its counter, the callers that have left the lock and not bumped yet, the ping, and the
ports that a caller has changed since the ping read the counter. -/
structure Racing where
  inner : ForwardsInner
  changed : Nat
  unbumped : List CallId
  ping : PingPc
  since : List (CallId × Port)

inductive RaceEvent where
  | insert (call : CallId) (forward : Forward)
  | remove (call : CallId) (port : Port)
  | bump (call : CallId)
  | readGeneration
  | fail
  | replaceIfUnchanged (forwards : List Forward)
  | bumpReplaced

/-- A caller leaves the lock with the table `r.1`; it bumps later if `r.2`. -/
def Racing.leave (s : Racing) (call : CallId) (port : Port) (r : ForwardsInner × Bool) : Racing :=
  if r.2 then { s with inner := r.1, unbumped := call :: s.unbumped, since := (call, port) :: s.since }
  else { s with inner := r.1 }

def Racing.step (s : Racing) : RaceEvent → Option Racing
  | .insert call forward =>
    if call ∈ s.unbumped then none else some (s.leave call forward.port (s.inner.insert forward))
  | .remove call port => if call ∈ s.unbumped then none else some (s.leave call port (s.inner.remove port))
  | .bump call =>
    if call ∈ s.unbumped then some { s with changed := s.changed + 1, unbumped := s.unbumped.filter (· ≠ call) }
    else none
  | .readGeneration => if s.ping = .idle then some { s with ping := .posted s.changed, since := [] } else none
  | .fail => match s.ping with
    | .posted _ => some { s with ping := .idle }
    | _ => none
  | .replaceIfUnchanged forwards => match s.ping with
    | .posted g =>
      if s.changed = g then
        let r := s.inner.replace forwards
        some { s with inner := r.1, ping := if r.2 then .bump else .idle }
      else some { s with ping := .idle }
    | _ => none
  | .bumpReplaced => if s.ping = .bump then some { s with changed := s.changed + 1, ping := .idle } else none

/-- Callers and the ping on any table, nobody at work. -/
def races : System Racing RaceEvent where
  init s := s.unbumped = [] ∧ s.ping = .idle ∧ s.since = []
  step := Racing.step

variable {s s' : Racing} {e : RaceEvent} {forwards : List Forward}

/-- What callers have changed since the ping read the counter stands as they left it. -/
def KeepsChanges (s s' : Racing) : Prop := ∀ c ∈ s.since,
  s'.inner.forwards[c.2]? = s.inner.forwards[c.2]? ∧
    ∀ slot : Slot, s'.inner.slots[slot]? = some c.2 ↔ s.inner.slots[slot]? = some c.2

/-- When the ping's check passes, every change made since the counter was read has been bumped. -/
def BumpsFirst (s : Racing) : RaceEvent → Prop
  | .replaceIfUnchanged _ => s.ping = .posted s.changed → ∀ c ∈ s.since, c.1 ∉ s.unbumped
  | _ => True

instance (s : Racing) (e : RaceEvent) : Decidable (BumpsFirst s e) := by
  cases e <;> unfold BumpsFirst <;> infer_instance

/-- While the ping waits, each change made since its reading is still to be bumped, or the counter has passed
the reading. -/
structure Racing.Counts (s : Racing) : Prop where
  reading : ∀ g, s.ping = .posted g → g ≤ s.changed
  since : ∀ g, s.ping = .posted g → ∀ c ∈ s.since, c.1 ∈ s.unbumped ∨ g < s.changed

theorem Racing.Counts.leave (h : s.Counts) (call : CallId) (port : Port) (r : ForwardsInner × Bool) :
    (s.leave call port r).Counts := by
  unfold Racing.leave
  split
  · refine ⟨h.reading, fun g hg c hc => ?_⟩
    rcases List.mem_cons.1 hc with rfl | hc
    · exact .inl (List.mem_cons_self ..)
    · exact (h.since g hg c hc).imp_left (List.mem_cons_of_mem _)
  · exact ⟨h.reading, h.since⟩

/-- A step that leaves the ping idle or bumping keeps nothing to prove. -/
theorem Racing.Counts.of_ping (h : ∀ g, s.ping ≠ .posted g) : s.Counts :=
  ⟨fun g hg => absurd hg (h g), fun g hg => absurd hg (h g)⟩

theorem Racing.Counts.step (h : s.Counts) (hstep : s.step e = some s') : s'.Counts := by
  cases e with
  | insert call forward =>
    simp only [Racing.step] at hstep
    split at hstep <;> cases hstep
    exact h.leave ..
  | remove call port =>
    simp only [Racing.step] at hstep
    split at hstep <;> cases hstep
    exact h.leave ..
  | bump call =>
    simp only [Racing.step] at hstep
    split at hstep <;> cases hstep
    have hle : ∀ g, s.ping = .posted g → g < s.changed + 1 := fun g hg => Nat.lt_succ_of_le (h.reading g hg)
    exact ⟨fun g hg => Nat.le_of_lt (hle g hg), fun g hg c _ => .inr (hle g hg)⟩
  | readGeneration =>
    simp only [Racing.step] at hstep
    split at hstep <;> cases hstep
    refine ⟨fun g hg => ?_, fun g _ c hc => by cases hc⟩
    cases hg
    exact Nat.le_refl _
  | fail =>
    simp only [Racing.step] at hstep
    split at hstep <;> cases hstep
    exact .of_ping fun g hg => by cases hg
  | replaceIfUnchanged forwards =>
    simp only [Racing.step] at hstep
    split at hstep
    · split at hstep <;> cases hstep
      · refine .of_ping fun g hg => ?_
        dsimp only at hg
        split at hg <;> cases hg
      · exact .of_ping fun g hg => by cases hg
    · cases hstep
  | bumpReplaced =>
    simp only [Racing.step] at hstep
    split at hstep <;> cases hstep
    exact .of_ping fun g hg => by cases hg

theorem counts_of_reach {G : Racing → RaceEvent → Prop} (h : races.Reach G s) : s.Counts :=
  h.invariant (fun s hs => .of_ping fun g hg => by cases hs.2.1.symm.trans hg) fun _ _ _ _ hc _ hstep => hc.step hstep

/-- A ping that finds every change since its reading bumped undoes none of them. -/
theorem ping_undoes_nothing (h : races.Reach BumpsFirst s) (hg : BumpsFirst s (.replaceIfUnchanged forwards))
    (hstep : races.step s (.replaceIfUnchanged forwards) = some s') : KeepsChanges s s' := by
  have hcounts := counts_of_reach h
  intro c hc
  change s.step (.replaceIfUnchanged forwards) = some s' at hstep
  simp only [Racing.step] at hstep
  split at hstep
  · next g hping =>
    split at hstep
    · next he =>
      -- the counter still shows the reading, so the change is unbumped; the condition excludes that
      exfalso
      subst he
      rcases hcounts.since _ hping c hc with hun | hlt
      · exact hg hping c hc hun
      · exact Nat.lt_irrefl _ hlt
    · cases hstep; exact ⟨rfl, fun _ => Iff.rfl⟩
  · cases hstep

/-- The ping finds that an insert was bumped meanwhile and skips the directive's list. -/
theorem ping_undoes_nothing_skipped : ∃ s s' : Racing, races.step s (.replaceIfUnchanged []) = some s' ∧
    s.since = [(0, 3000)] ∧ KeepsChanges s s' := by
  obtain ⟨s, hr, hsome, hguard, hsince⟩ := exists_reach_of_execs (S := races) (G := BumpsFirst)
    (fun s : Racing => (races.step s (.replaceIfUnchanged [])).isSome = true ∧ BumpsFirst s (.replaceIfUnchanged []) ∧
      s.since = [(0, 3000)])
    [.readGeneration, .insert 0 ⟨3000, .priv, none, none, some 8444⟩, .bump 0]
    (s := ⟨(ForwardsState.withSlots proxySlots).inner, 0, [], .idle, []⟩) ⟨rfl, rfl, rfl⟩ (by decide)
    (by decide)
  obtain ⟨s', hs'⟩ := Option.isSome_iff_exists.1 hsome
  exact ⟨s, s', hs', hsince, ping_undoes_nothing hr hguard hs'⟩

/-- The ping's check passes between the lock and the bump of an insert, and the older list drops the forward. -/
theorem ping_undoes_insert : ¬ ∀ (s s' : Racing) (forwards : List Forward), races.Reach free s →
    races.step s (.replaceIfUnchanged forwards) = some s' → KeepsChanges s s' := by
  intro h
  obtain ⟨s, hr, hany⟩ := exists_reach_of_exec (S := races)
    (fun s : Racing => (races.step s (.replaceIfUnchanged [])).any (fun s' => decide
      ((0, 3000) ∈ s.since ∧ s'.inner.forwards[3000]? ≠ s.inner.forwards[3000]?)) = true)
    [.readGeneration, .insert 0 ⟨3000, .priv, none, none, some 8444⟩]
    (s := ⟨(ForwardsState.withSlots proxySlots).inner, 0, [], .idle, []⟩) ⟨rfl, rfl, rfl⟩ (by decide)
  obtain ⟨s', hs', hlost⟩ := (Option.any_eq_true _ _).1 hany
  obtain ⟨hmem, hne⟩ := of_decide_eq_true hlost
  exact hne (h s s' [] hr hs' (0, 3000) hmem).1

end Zedspaces.Supervisor
