/-
Starting a child under a token. An attempt looks for the run recorded under the token, starts one if there is none, and
records it for a week. Between the start and the record nothing knows of the run: an attempt that is cut short there,
or that another one overtakes, leaves a run that the next attempt does not find (`two_children`). Where an attempt finds
no record only when there is none to come, there is one run at most, and it is what every attempt returns
(`stepStartChild_once`).
-/
import Zedspaces.Lib.Processes
import Zedspaces.Web.KvRefines

namespace Zedspaces.Lifecycle

open Lib Lib.System Web

/-- The id of a run, as the run store gives them out. -/
structure ChildRun where
  id : String
  nonempty : id ≠ ""
  deriving DecidableEq

def childTokenTtlMs : Int := 7 * 86400000

/-- What `startRun` does. -/
inductive StartOutcome where
  | threw
  | started (run : ChildRun)

/-- An attempt: before it reads the record, before it starts a run, before it records the run, and how it ended; cut
short perhaps with a run that nothing records. -/
inductive AttemptPc where
  | arrived
  | looked
  | started (run : ChildRun)
  | returned (runId : String)
  | failed
  | cut (run : Option ChildRun)
  deriving DecidableEq

/-- The clock, the table of the store, the runs started under the token, and when the first attempt was possible. -/
structure ChildWorld where
  now : Int
  table : SqlKv.Table
  started : List ChildRun
  since : Int

inductive ChildEvent where
  | advance (ms : Nat)
  | statement (statement : KvStatement)
  | sweep

/-- The run recorded under the token, if there is one. -/
def childRun (w : ChildWorld) (key : String) : Option String := (SqlKv.get w.table w.now key).filter (· ≠ "")

/-- One effect of `stepStartChild`. -/
def AttemptPc.next (key : String) (outcome : StartOutcome) (w : ChildWorld) : AttemptPc → Option (ChildWorld × AttemptPc)
  | .arrived => some (w, match childRun w key with
    | some existing => .returned existing
    | none => .looked)
  | .looked => match outcome with
    | .threw => some (w, .failed)
    | .started run => some ({ w with started := w.started ++ [run] }, .started run)
  | .started run =>
    some ({ w with table := (SqlKv.set w.table w.now key run.id (some childTokenTtlMs) false).1 }, .returned run.id)
  | .returned _ => none
  | .failed => none
  | .cut _ => none

/-- An attempt cut short, by a crash or by a call that does not come back. -/
def AttemptPc.halt : AttemptPc → Option AttemptPc
  | .arrived | .looked => some (.cut none)
  | .started run => some (.cut (some run))
  | .returned _ | .failed | .cut _ => none

def ChildWorld.apply (sql : SqlNumbers) (w : ChildWorld) : ChildEvent → ChildWorld
  | .advance ms => { w with now := w.now + ms }
  | .statement statement => { w with table := (SqlKv.answer sql w.now w.table statement).1 }
  | .sweep => { w with table := SqlKv.sweepExpiredKv w.table w.now }

/-- Attempts under one token, among everything else the store is used for. -/
def attempts (sql : SqlNumbers) (key : String) : Machine ChildWorld AttemptPc Unit StartOutcome ChildEvent where
  accept _ w := some (w, .arrived)
  next _ pc outcome w := (pc.next key outcome w).map fun (w, pc) => (w, pc, none)
  halt := AttemptPc.halt
  env event w := w.apply sql event

abbrev Attempts := Table ChildWorld AttemptPc

/-- The token is new. -/
def stepStartChild (sql : SqlNumbers) (key : String) : System Attempts (Event Unit StartOutcome ChildEvent) :=
  (attempts sql key).system fun w => w.table key = none ∧ w.started = [] ∧ w.since = w.now

/-- The attempt found no record and has none made yet: it may start a run, or has started one that is not recorded. -/
def AttemptPc.Open : AttemptPc → Bool
  | .looked | .started _ | .cut (some _) => true
  | _ => false

/-- Nothing else uses the token's key. -/
def OnlyAttempts (key : String) (_ : Attempts) : Event Unit StartOutcome ChildEvent → Prop
  | .env (.statement statement) => statement.Spares key
  | _ => True

/-- An attempt comes within a week of the first, and finds no record only while no other one is open. -/
def FindsWhatIs (key : String) (s : Attempts) : Event Unit StartOutcome ChildEvent → Prop
  | .act n _ => s.procs n = some .arrived → childRun s.world key = none →
    s.world.now < s.world.since + childTokenTtlMs ∧ ∀ k pc, s.procs k = some pc → pc.Open = false
  | .env (.statement statement) => statement.Spares key
  | _ => True

/-- One run at most, which every attempt that returns names. -/
def OneChild (s : Attempts) : Prop :=
  s.world.started.length ≤ 1 ∧
    ∀ n runId, s.procs n = some (.returned runId) → ∃ run, s.world.started = [run] ∧ runId = run.id

variable {sql : SqlNumbers} {key : String} {s : Attempts} {w : ChildWorld} {n : Nat} {pc pc' : AttemptPc}

/-! ## The invariant -/

/-- The run the attempt has started and not recorded. -/
def AttemptPc.run : AttemptPc → Option ChildRun
  | .started run => some run
  | .cut run => run
  | _ => none

/-- What an attempt says about the runs started. -/
structure AttemptPc.Fits (pc : AttemptPc) (started : List ChildRun) : Prop where
  none_yet : pc = .looked → started = []
  one : ∀ run, pc.run = some run → started = [run]
  returned : ∀ runId, pc = .returned runId → ∃ run, started = [run] ∧ runId = run.id

/-- The run is with the attempt that started it, or recorded for a week from its start on. -/
structure Recorded (key : String) (s : Attempts) : Prop where
  since : s.world.since ≤ s.world.now
  single : Table.AtMostOne (fun pc : AttemptPc => pc.Open = true) s
  once : s.world.started.length ≤ 1
  settled : ∀ run, s.world.started = [run] → (∃ k p, s.procs k = some p ∧ p.run = some run) ∨
    (∃ t, s.world.table key = some ⟨run.id, some t⟩ ∧ s.world.since + childTokenTtlMs ≤ t) ∨
    s.world.since + childTokenTtlMs ≤ s.world.now
  stored : ∀ row, s.world.table key = some row → ∃ run, s.world.started = [run] ∧ row.value = run.id

theorem AttemptPc.open_of_run {run : ChildRun} (h : pc.run = some run) : pc.Open = true := by
  cases pc with
  | started run => rfl
  | cut run =>
    have hrun : run = some _ := h
    rw [hrun]
    rfl
  | _ => cases h

/-- Before any start an attempt that is not open fits whatever comes. -/
theorem AttemptPc.Fits.of_closed (h : pc.Fits []) (hclosed : pc.Open = false) (started : List ChildRun) :
    pc.Fits started where
  none_yet := by rintro rfl; cases hclosed
  one run hrun := by
    rw [AttemptPc.open_of_run hrun] at hclosed
    cases hclosed
  returned runId hreturned := by
    obtain ⟨run, hrun, -⟩ := h.returned runId hreturned
    cases hrun

theorem fits_quiet (started : List ChildRun) (h : pc = .arrived ∨ pc = .failed ∨ pc = .cut none) :
    pc.Fits started := by
  rcases h with rfl | rfl | rfl <;> exact ⟨by rintro ⟨⟩, by rintro run ⟨⟩, by rintro runId ⟨⟩⟩

/-- A step of one attempt that leaves the world alone. -/
theorem Recorded.quiet (h : Recorded key s) (hpc : s.procs n = some pc) (hopen : pc'.Open = true → pc.Open = true)
    (hrun : ∀ run, pc.run = some run → pc'.run = some run) : Recorded key (s.set n pc' s.world) where
  since := h.since
  single := h.single.set hpc hopen s.world
  once := h.once
  settled run hone := by
    rcases h.settled run hone with ⟨k, p, hp, hprun⟩ | hrest
    · by_cases hkn : k = n
      · subst hkn
        rw [hpc] at hp
        cases hp
        exact .inl ⟨k, pc', Table.set_procs_self .., hrun run hprun⟩
      · exact .inl ⟨k, p, (Table.set_procs_ne s hkn pc' s.world).trans hp, hprun⟩
    · exact .inr hrest
  stored := h.stored

/-! ## Steps -/

/-- Where an attempt finds no record and no other is open, none has been started within the week. -/
theorem Recorded.started_eq_nil (h : Recorded key s) (hnone : childRun s.world key = none)
    (hweek : s.world.now < s.world.since + childTokenTtlMs) (hclosed : ∀ k pc, s.procs k = some pc → pc.Open = false) :
    s.world.started = [] := by
  have honce := h.once
  rcases hstarted : s.world.started with _ | ⟨run, _ | ⟨_, _⟩⟩
  · rfl
  · rcases h.settled run hstarted with ⟨k, p, hp, hrun⟩ | ⟨t, ht, hle⟩ | hover
    · have hc := hclosed k p hp
      rw [AttemptPc.open_of_run hrun] at hc
      cases hc
    · have hlive : (⟨run.id, some t⟩ : Timed String).live s.world.now = true :=
        decide_eq_true (show s.world.now < t by omega)
      have hfound : childRun s.world key = some run.id := by
        rw [childRun, SqlKv.get, ht, Option.filter_some, if_pos hlive, Option.map_some, Option.filter_some,
          if_pos (decide_eq_true run.nonempty)]
      rw [hfound] at hnone
      cases hnone
    · omega
  · rw [hstarted] at honce
    simp at honce

theorem Recorded.arrived (hs : Recorded key s) (heach : ∀ k q, s.procs k = some q → q.Fits s.world.started)
    (hpc : s.procs n = some .arrived) {outcome : StartOutcome} (hg : childRun s.world key = none →
      s.world.now < s.world.since + childTokenTtlMs ∧ ∀ k pc, s.procs k = some pc → pc.Open = false)
    (hnext : AttemptPc.next key outcome s.world .arrived = some (w, pc')) :
    Recorded key (s.set n pc' w) ∧ ∀ k q, (s.set n pc' w).procs k = some q → q.Fits w.started := by
  cases hnext
  have hothers : ∀ k q, k ≠ n → s.procs k = some q → q.Fits s.world.started := fun k q _ hq => heach k q hq
  cases hfound : childRun s.world key with
  | some existing =>
    refine ⟨hs.quiet hpc nofun nofun, Table.forall_set (P := fun _ q => AttemptPc.Fits q s.world.started) ?_ hothers⟩
    obtain ⟨hget, -⟩ := Option.filter_eq_some_iff.1 hfound
    obtain ⟨row, hrow, rfl⟩ := Option.map_eq_some_iff.1 hget
    obtain ⟨run, hrun, hvalue⟩ := hs.stored row (Option.filter_eq_some_iff.1 hrow).1
    refine ⟨by rintro ⟨⟩, by rintro run ⟨⟩, ?_⟩
    rintro runId ⟨⟩
    exact ⟨run, hrun, hvalue⟩
  | none =>
    obtain ⟨hweek, hclosed⟩ := hg hfound
    have hnil := hs.started_eq_nil hfound hweek hclosed
    refine ⟨⟨hs.since, ?_, hs.once, ?_, hs.stored⟩,
      Table.forall_set (P := fun _ q => AttemptPc.Fits q s.world.started) ?_ hothers⟩
    · refine Table.atMostOne_set (fun k pc hk => ?_) n _ _
      rw [hclosed k pc hk]
      exact Bool.false_ne_true
    · intro run hone
      have hone : s.world.started = [run] := hone
      rw [hnil] at hone
      cases hone
    · exact ⟨fun _ => hnil, by rintro run ⟨⟩, by rintro runId ⟨⟩⟩

theorem Recorded.looked (hs : Recorded key s) (heach : ∀ k q, s.procs k = some q → q.Fits s.world.started)
    (hpc : s.procs n = some .looked) {outcome : StartOutcome}
    (hnext : AttemptPc.next key outcome s.world .looked = some (w, pc')) :
    Recorded key (s.set n pc' w) ∧ ∀ k q, (s.set n pc' w).procs k = some q → q.Fits w.started := by
  have hnil : s.world.started = [] := (heach n _ hpc).none_yet rfl
  cases outcome with
  | threw =>
    cases hnext
    exact ⟨hs.quiet hpc nofun nofun, Table.forall_set (P := fun _ q => AttemptPc.Fits q s.world.started)
      (fits_quiet _ (.inr (.inl rfl))) fun k q _ hq => heach k q hq⟩
  | started run =>
    cases hnext
    have hone : s.world.started ++ [run] = [run] := by rw [hnil]; rfl
    refine ⟨⟨hs.since, hs.single.set hpc (fun _ => rfl) _, by
      show (s.world.started ++ [run]).length ≤ 1; rw [hone]; exact Nat.le_refl 1, ?_, ?_⟩, ?_⟩
    · intro run' hrun'
      have hrun' : s.world.started ++ [run] = [run'] := hrun'
      rw [hone] at hrun'
      cases hrun'
      exact .inl ⟨n, .started run, Table.set_procs_self .., rfl⟩
    · intro row hrow
      obtain ⟨run', hrun', -⟩ := hs.stored row hrow
      rw [hnil] at hrun'
      cases hrun'
    · refine Table.forall_set (P := fun _ q => AttemptPc.Fits q (s.world.started ++ [run])) ?_ fun k q hkn hq => ?_
      · refine ⟨by rintro ⟨⟩, ?_, by rintro runId ⟨⟩⟩
        rintro run' ⟨⟩
        exact hone
      · -- the others are not open beside this one
        have hfits := heach k q hq
        rw [hnil] at hfits
        refine hfits.of_closed ?_ _
        by_contra hopen
        exact hkn (hs.single k n q .looked hq hpc (by simpa using hopen) rfl)

theorem Recorded.started (hs : Recorded key s) (heach : ∀ k q, s.procs k = some q → q.Fits s.world.started)
    {run : ChildRun} (hpc : s.procs n = some (.started run)) {outcome : StartOutcome}
    (hnext : AttemptPc.next key outcome s.world (.started run) = some (w, pc')) :
    Recorded key (s.set n pc' w) ∧ ∀ k q, (s.set n pc' w).procs k = some q → q.Fits w.started := by
  cases hnext
  have hone : s.world.started = [run] := (heach n _ hpc).one run rfl
  have hwritten : (SqlKv.set s.world.table s.world.now key run.id (some childTokenTtlMs) false).1 key =
      some ⟨run.id, some (s.world.now + childTokenTtlMs)⟩ := by
    rw [set_always, Function.update_self]
    rfl
  refine ⟨⟨hs.since, hs.single.set hpc (by rintro ⟨⟩) _, hs.once, ?_, ?_⟩,
    Table.forall_set (P := fun _ q => AttemptPc.Fits q s.world.started) ?_ fun k q _ hq => heach k q hq⟩
  · intro run' hrun'
    have hrun' : s.world.started = [run'] := hrun'
    rw [hone] at hrun'
    cases hrun'
    have hsince := hs.since
    exact .inr (.inl ⟨_, hwritten, by show s.world.since + _ ≤ s.world.now + _; omega⟩)
  · intro row hrow
    cases hwritten.symm.trans hrow
    exact ⟨run, hone, rfl⟩
  · refine ⟨by rintro ⟨⟩, by rintro run ⟨⟩, ?_⟩
    rintro runId ⟨⟩
    exact ⟨run, hone, rfl⟩

theorem Recorded.next (hs : Recorded key s) (heach : ∀ k q, s.procs k = some q → q.Fits s.world.started)
    (hpc : s.procs n = some pc) {outcome : StartOutcome} (hg : FindsWhatIs key s (.act n outcome))
    (hnext : pc.next key outcome s.world = some (w, pc')) :
    Recorded key (s.set n pc' w) ∧ ∀ k q, (s.set n pc' w).procs k = some q → q.Fits w.started := by
  cases pc with
  | arrived => exact hs.arrived heach hpc (hg hpc) hnext
  | looked => exact hs.looked heach hpc hnext
  | started run => exact hs.started heach hpc hnext
  | returned runId => cases hnext
  | failed => cases hnext
  | cut run => cases hnext

theorem Recorded.halt (hs : Recorded key s) (heach : ∀ k q, s.procs k = some q → q.Fits s.world.started)
    (hpc : s.procs n = some pc) (hhalt : pc.halt = some pc') :
    Recorded key (s.set n pc' s.world) ∧ pc'.Fits s.world.started := by
  cases pc with
  | started run =>
    cases hhalt
    refine ⟨hs.quiet hpc (fun _ => rfl) fun _ h => h, by rintro ⟨⟩, ?_, by rintro runId ⟨⟩⟩
    rintro run' ⟨⟩
    exact (heach n _ hpc).one run rfl
  | arrived => cases hhalt; exact ⟨hs.quiet hpc (by rintro ⟨⟩) (by rintro run ⟨⟩), fits_quiet _ (.inr (.inr rfl))⟩
  | looked => cases hhalt; exact ⟨hs.quiet hpc (by rintro ⟨⟩) (by rintro run ⟨⟩), fits_quiet _ (.inr (.inr rfl))⟩
  | returned runId => cases hhalt
  | failed => cases hhalt
  | cut run => cases hhalt

theorem Recorded.env (hs : Recorded key s) (event : ChildEvent)
    (hspares : ∀ statement, event = .statement statement → statement.Spares key) :
    Recorded key ⟨s.world.apply sql event, s.entries⟩ ∧ (s.world.apply sql event).started = s.world.started := by
  cases event with
  | advance ms =>
    have hle : s.world.now ≤ s.world.now + ms := by omega
    refine ⟨⟨Int.le_trans hs.since hle, hs.single, hs.once, fun run hone => ?_, hs.stored⟩, rfl⟩
    rcases hs.settled run hone with h | h | h
    · exact .inl h
    · exact .inr (.inl h)
    · exact .inr (.inr (Int.le_trans h hle))
  | statement statement =>
    have hrow : (SqlKv.answer sql s.world.now s.world.table statement).1 key = s.world.table key :=
      answer_of_spares statement (hspares statement rfl)
    refine ⟨⟨hs.since, hs.single, hs.once, fun run hone => ?_, fun row h => hs.stored row (hrow.symm.trans h)⟩, rfl⟩
    rcases hs.settled run hone with h | ⟨t, ht, hweek⟩ | h
    · exact .inl h
    · exact .inr (.inl ⟨t, hrow.trans ht, hweek⟩)
    · exact .inr (.inr h)
  | sweep =>
    refine ⟨⟨hs.since, hs.single, hs.once, fun run hone => ?_, fun row hrow => ?_⟩, rfl⟩
    · rcases hs.settled run hone with h | ⟨t, ht, hweek⟩ | h
      · exact .inl h
      · by_cases hlive : s.world.now < t
        · refine .inr (.inl ⟨t, ?_, hweek⟩)
          show SqlKv.sweepExpiredKv s.world.table s.world.now key = _
          rw [sweep_eq]
          exact TtlMap.atTime_eq_some.2 ⟨ht, decide_eq_true hlive⟩
        · exact .inr (.inr (Int.le_trans hweek (Int.not_lt.1 hlive)))
      · exact .inr (.inr h)
    · have hrow : SqlKv.sweepExpiredKv s.world.table s.world.now key = some row := hrow
      rw [sweep_eq] at hrow
      exact hs.stored row (TtlMap.atTime_eq_some.1 hrow).1

theorem attempts_next {outcome : StartOutcome} {st : Option (Nat × AttemptPc)}
    (h : (attempts sql key).next n pc outcome s.world = some (w, pc', st)) :
    pc.next key outcome s.world = some (w, pc') ∧ st = none := by
  obtain ⟨⟨w₁, pc₁⟩, hnext, hstep⟩ := Option.map_eq_some_iff.1 h
  cases hstep
  exact ⟨hnext, rfl⟩

theorem outline_recorded : (attempts sql key).Outline
    (fun w => w.table key = none ∧ w.started = [] ∧ w.since = w.now) (FindsWhatIs key) (Recorded key)
    (fun _ pc s => pc.Fits s.world.started) where
  init w hw := by
    obtain ⟨htable, hstarted, hsince⟩ := hw
    refine ⟨hsince.le, ?_, by show w.started.length ≤ 1; rw [hstarted]; exact Nat.zero_le 1, ?_, ?_⟩
    · intro k m p q hp
      cases hp
    · intro run hone
      have hone : w.started = [run] := hone
      rw [hstarted] at hone
      cases hone
    · intro row hrow
      rw [show w.table key = some row from hrow] at htable
      cases htable
  accept s n i w pc hs _ hfree haccept := by
    cases haccept
    have harrived : ¬ AttemptPc.Open .arrived = true := Bool.false_ne_true
    refine ⟨⟨⟨hs.whole.since, hs.whole.single.arrive harrived _, hs.whole.once, fun run hone => ?_, hs.whole.stored⟩,
      fun k q _ hq => hs.each k q hq⟩, fits_quiet _ (.inl rfl)⟩
    rcases hs.whole.settled run hone with ⟨k, p, hp, hrun⟩ | h
    · have hkn : k ≠ n := by
        rintro rfl
        rw [hfree] at hp
        cases hp
      exact .inl ⟨k, p, (Table.set_procs_ne s hkn _ _).trans hp, hrun⟩
    · exact .inr h
  next s n outcome pc w pc' st hs hg hpc hnext _ := by
    obtain ⟨hstep, rfl⟩ := attempts_next hnext
    obtain ⟨hrecorded, heach⟩ := hs.whole.next hs.each hpc hg hstep
    exact ⟨⟨hrecorded, fun k q hkn hq => heach k q ((Table.set_procs_ne s hkn _ _).trans hq)⟩,
      heach n pc' (Table.set_procs_self ..), by rintro m q ⟨⟩⟩
  halt s n pc pc' hs _ hpc hhalt := by
    obtain ⟨hrecorded, hfits⟩ := hs.whole.halt hs.each hpc hhalt
    exact ⟨⟨hrecorded, fun k q _ hq => hs.each k q hq⟩, hfits⟩
  env s event hs hg := by
    have henv : Recorded key ⟨s.world.apply sql event, s.entries⟩ ∧ (s.world.apply sql event).started = s.world.started :=
      hs.whole.env event (by rintro statement rfl; exact hg)
    obtain ⟨hrecorded, hstarted⟩ := henv
    refine ⟨hrecorded, fun k q hq => ?_⟩
    show q.Fits (s.world.apply sql event).started
    rw [hstarted]
    exact hs.each k q hq

/-- As long as each attempt that finds no record finds none to come, one run is started at most, and every attempt that
returns names it. -/
theorem stepStartChild_once (sql : SqlNumbers) (key : String) (s : Attempts)
    (h : (stepStartChild sql key).Reach (FindsWhatIs key) s) : OneChild s := by
  obtain ⟨hrecorded, heach⟩ := outline_recorded.holds h
  exact ⟨hrecorded.once, fun n runId hn => (heach n _ hn).returned runId rfl⟩

/-! ## Runs -/

instance (key : String) (s : Attempts) : ∀ event, Decidable (FindsWhatIs key s event)
  | .act n _ => inferInstanceAs (Decidable (s.procs n = some .arrived → childRun s.world key = none →
      s.world.now < s.world.since + childTokenTtlMs ∧ ∀ k pc, s.procs k = some pc → pc.Open = false))
  | .env (.statement statement) => inferInstanceAs (Decidable (statement.Spares key))
  | .env (.advance _) | .env .sweep | .arrive _ _ | .halt _ => .isTrue trivial

instance (key : String) (s : Attempts) : ∀ event, Decidable (OnlyAttempts key s event)
  | .env (.statement statement) => inferInstanceAs (Decidable (statement.Spares key))
  | .env (.advance _) | .env .sweep | .arrive _ _ | .act _ _ | .halt _ => .isTrue trivial

def sampleRun : ChildRun := ⟨"wrun_1", by decide⟩

/-- The token is new. -/
def sampleAttempts : Attempts := ⟨⟨0, fun _ => none, [], 0⟩, []⟩

/-- An attempt that is cut short after its look, one that starts the child, and one that attaches to it. -/
theorem stepStartChild_once_sample : ∃ s : Attempts, s.procs 2 = some (.returned "wrun_1") ∧ OneChild s := by
  obtain ⟨s, hr, hreturned⟩ := exists_reach_of_execs (S := stepStartChild sampleNumbers "t") (G := FindsWhatIs "t")
    (fun s : Attempts => s.procs 2 = some (.returned "wrun_1"))
    [.arrive 0 (), .act 0 .threw, .halt 0, .arrive 1 (), .act 1 .threw, .act 1 (.started sampleRun), .act 1 .threw,
      .env (.advance 60000), .env .sweep, .arrive 2 (), .act 2 .threw]
    (s := sampleAttempts) ⟨⟨rfl, rfl, rfl⟩, rfl⟩ (by decide) (by decide)
  exact ⟨s, hreturned, stepStartChild_once sampleNumbers "t" s hr⟩

/-- A crash between the start and the record, and the next attempt starts another child. -/
theorem two_children : ¬ ∀ (sql : SqlNumbers) (key : String) (s : Attempts),
    (stepStartChild sql key).Reach (OnlyAttempts key) s → OneChild s := by
  intro h
  obtain ⟨s, hr, htwo⟩ := exists_reach_of_execs (S := stepStartChild sampleNumbers "t") (G := OnlyAttempts "t")
    (fun s : Attempts => s.world.started.length = 2)
    [.arrive 0 (), .act 0 .threw, .act 0 (.started sampleRun), .halt 0, .arrive 1 (), .act 1 .threw,
      .act 1 (.started ⟨"wrun_2", by decide⟩)]
    (s := sampleAttempts) ⟨⟨rfl, rfl, rfl⟩, rfl⟩ (by decide) (by decide)
  have honce := (h sampleNumbers "t" s hr).1
  omega

end Zedspaces.Lifecycle
