/-
The capacity ceiling. A creation counts the workspaces that take a slot in the transaction that inserts its row; an
admission counts the others in the transaction that names the run, unless the workspace was in an active state when the
call read it. That state was read outside the transaction: where the workspace has been lost in between, and another
one took its slot, the admission exceeds the ceiling (`capacity_exceeded`). Where one run is in flight at a time and an
admission without a count finds its workspace still counted, or room for it, the ceiling holds (`capacity_ceiling`).
-/
import Zedspaces.Lifecycle.Lineage
import Mathlib.Data.Finset.Card

namespace Zedspaces.Lifecycle

open Lib Lib.System

variable {cfg : Config} {w : World} {stmt : Stmt} {id : WsId} {s s' : Sys} {e : SysEvent}

/-! ## Who takes a slot -/

/-- The call has been admitted and is about to start its run. -/
def StartCall.admitted (c : StartCall) : Bool := match c.pc with
  | .start => true
  | _ => false

/-- The process is a run of `id` in flight that takes a slot, or a call admitted for one. -/
def Proc.activates (id : WsId) : Proc → Bool
  | .run r => r.inFlight && r.input.activates && decide (r.ws = id)
  | p => p.callOf.any fun c => c.admitted && c.input.activates && decide (c.ws = id)

/-- A run that takes a slot is in flight for `id`, or admitted. -/
def Sys.Activating (s : Sys) (id : WsId) : Prop := ∃ n p, s.procs n = some p ∧ p.activates id = true

instance (s : Sys) (id : WsId) : Decidable (s.Activating id) :=
  inferInstanceAs (Decidable (∃ n p, s.procs n = some p ∧ p.activates id = true))

/-- The workspace is not deleted and takes a slot: by its state or by a run. -/
def Sys.Occupies (s : Sys) (id : WsId) : Prop :=
  (s.world.liveRow id).any (fun row => row.state.occupied || decide (s.Activating id)) = true

instance (s : Sys) (id : WsId) : Decidable (s.Occupies id) := inferInstanceAs (Decidable (_ = true))

theorem Sys.occupies_iff : s.Occupies id ↔
    ∃ row, s.world.rows id = some row ∧ row.deletedAt = none ∧ (row.state.occupied = true ∨ s.Activating id) := by
  simp only [Occupies, Option.any_eq_true, Bool.or_eq_true, decide_eq_true_eq, World.liveRow_eq_some, and_assoc]

theorem Sys.activating_run {X : RunId} {r : Run} (hX : s.procs X = some (.run r)) (hf : r.inFlight = true)
    (ha : r.input.activates = true) : s.Activating r.ws := ⟨X, _, hX, by simp [Proc.activates, hf, ha]⟩

theorem Sys.activating_call {n : Pid} {p : Proc} {c : StartCall} (hp : s.procs n = some p) (hc : p.callOf = some c)
    (hpc : c.pc = .start) (ha : c.input.activates = true) : s.Activating c.ws := by
  refine ⟨n, p, hp, ?_⟩
  cases p with
  | run r => cases hc
  | _ => simp [Proc.activates, hc, StartCall.admitted, hpc, ha]

theorem Proc.activates_cases {p : Proc} (h : p.activates id = true) :
    (∃ r, p = .run r ∧ r.inFlight = true ∧ r.input.activates = true ∧ r.ws = id) ∨
      ∃ c, p.callOf = some c ∧ c.pc = .start ∧ c.input.activates = true ∧ c.ws = id := by
  cases p with
  | run r =>
    simp only [activates, Bool.and_eq_true, decide_eq_true_eq] at h
    exact .inl ⟨r, rfl, h.1.1, h.1.2, h.2⟩
  | _ =>
    simp only [activates, Option.any_eq_true, Bool.and_eq_true, decide_eq_true_eq] at h
    obtain ⟨c, hc, ⟨hadm, ha⟩, hws⟩ := h
    refine .inr ⟨c, hc, ?_, ha, hws⟩
    unfold StartCall.admitted at hadm
    split at hadm
    · assumption
    · cases hadm

theorem Input.activates_of_roots {input : Input} (h : input.roots = true) : input.activates = true := by
  simp only [roots, Bool.and_eq_true] at h
  exact h.1

theorem Input.not_delete_of_occupies {input : Input} {child : Bool} (h : input.occupies = true) :
    input ≠ .deleteWorkspace child := by
  rintro rfl
  cases h

/-! ## What the count sees -/

/-- The row counts in `assertWorkspaceCapacity`. -/
def Workspace.counts (row : Workspace) : Bool :=
  decide (row.state ∈ ACTIVE_WORKSPACE_STATES) || row.workflowRunId.isSome

theorem WorkspaceState.active_of_occupied {state : WorkspaceState} (h : state.occupied = true) :
    state ∈ ACTIVE_WORKSPACE_STATES := by
  cases state <;> first | decide | cases h

/-- With one run at a time a workspace that takes a slot is counted: its row shows the state, or names the run. -/
theorem Sys.Occupies.counts (hi : s.CallsInOrder) (ho : s.OneRun) (hl : s.Lineage) (h : s.Occupies id) :
    ∃ row, s.world.liveRow id = some row ∧ row.counts = true := by
  obtain ⟨row, hrow, hlive, hocc⟩ := Sys.occupies_iff.1 h
  refine ⟨row, World.liveRow_eq_some.2 ⟨hrow, hlive⟩, ?_⟩
  have named : s.RowActive id → row.counts = true := by
    intro ha
    obtain ⟨row', ref, hrow', href, -⟩ := Sys.rowActive_iff.1 ha
    cases hrow.symm.trans hrow'
    simp [Workspace.counts, href]
  have of_root : ∀ {X : RunId} {r : Run}, s.procs X = some (.run r) → r.inFlight = true → r.ws = id →
      r.input.roots = true → row.counts = true := by
    intro X r hX hf hws hroots
    cases hst : r.starter with
    | call c =>
      apply named
      rw [← hws]
      exact ho.rowActive_run hi hX hf hst
    | parent m =>
      have hocc : r.input.occupies = true := by simp [Input.occupies, Input.activates_of_roots hroots]
      have hchild := (hl.child X r m hX hst hocc).1
      simp [Input.roots, hchild] at hroots
  rcases hocc with hstate | ⟨n, p, hp, hact⟩
  · simp [Workspace.counts, WorkspaceState.active_of_occupied hstate]
  rcases Proc.activates_cases hact with ⟨r, rfl, hf, ha, hws⟩ | ⟨c, hc, hpc, -, hws⟩
  · cases hst : r.starter with
    | call c =>
      apply named
      rw [← hws]
      exact ho.rowActive_run hi hp hf hst
    | parent m =>
      -- its parent waits for it and is named
      have hocc : r.input.occupies = true := by simp [Input.occupies, ha]
      obtain ⟨hchild, q, hq, hqws, hroots⟩ := hl.child n r m hp hst hocc
      obtain ⟨q', c, hq', hcpc, -⟩ := ho.awaited n r m hp hf hst hchild
      cases hq.symm.trans hq'
      exact of_root hq (Run.inFlight_of_childPc hcpc) (hqws.trans hws) hroots
  · apply named
    rw [← hws]
    exact ho.rowActive_call hi hp (by rw [Proc.callAt_of_callOf hc, hpc])

theorem activeWorkspaces_eq (excludeId : Option WsId) (w : World) : activeWorkspaces excludeId w =
    (w.ids.filter fun id => decide (some id ≠ excludeId) && (w.liveRow id).any Workspace.counts).length := rfl

/-- Counting without an exclusion counts at least as many. -/
theorem hasCapacity_some (h : hasCapacity cfg none w = true) (id : WsId) : hasCapacity cfg (some id) w = true := by
  simp only [hasCapacity, decide_eq_true_eq] at h ⊢
  refine lt_of_le_of_lt ?_ h
  rw [activeWorkspaces_eq, activeWorkspaces_eq]
  refine List.Sublist.length_le (List.monotone_filter_right _ fun j hj => ?_)
  simp only [ne_eq, decide_not, Bool.and_eq_true] at hj ⊢
  exact ⟨by simp, hj.2⟩

/-- A set of counted workspaces is at most as large as the count. -/
theorem card_le_activeWorkspaces {F : Finset WsId} (hlisted : ∀ id row, w.rows id = some row → id ∈ w.ids)
    (hF : ∀ j ∈ F, j ≠ id ∧ ∃ row, w.liveRow j = some row ∧ row.counts = true) :
    F.card ≤ activeWorkspaces (some id) w := by
  rw [activeWorkspaces_eq]
  refine le_trans (Finset.card_le_card fun j hj => ?_) (List.toFinset_card_le _)
  obtain ⟨hne, row, hrow, hc⟩ := hF j hj
  rw [List.mem_toFinset, List.mem_filter]
  refine ⟨hlisted j row (World.liveRow_eq_some.1 hrow).1, ?_⟩
  simp [hne, hrow, hc]

/-! ## The condition -/

/-- An admission that does not count, because the workspace was in an active state when the call read it, finds the
workspace still in a state that takes a slot, or room for it. -/
def AdmitsCounted (cfg : Config) (s : Sys) (e : SysEvent) : Prop := match (s.acting e).bind Proc.callOf with
  | some ⟨id, input, .admission _ state⟩ => input.activates = true → state ∈ ACTIVE_WORKSPACE_STATES →
    (s.world.liveRow id).all (fun row => row.state.occupied) = true ∨ hasCapacity cfg (some id) s.world = true
  | _ => True

instance (s : Sys) (e : SysEvent) : Decidable (AdmitsCounted cfg s e) := by
  unfold AdmitsCounted; split <;> infer_instance

/-- One run at a time, admissions that keep within the ceiling, and no stop for a rebuild but by a rebuild. -/
structure WithinCapacity (cfg : Config) (s : Sys) (e : SysEvent) : Prop where
  oneAtATime : OneAtATime s e
  counted : AdmitsCounted cfg s e
  asked : e.Asked

instance (s : Sys) (e : SysEvent) : Decidable (WithinCapacity cfg s e) :=
  decidable_of_iff (OneAtATime s e ∧ AdmitsCounted cfg s e ∧ e.Asked)
    ⟨fun h => ⟨h.1, h.2.1, h.2.2⟩, fun h => ⟨h.1, h.2, h.3⟩⟩

/-! ## One step -/

/-- The workspace that the step admits: the one it inserts, or the one whose admission it performs. -/
def Sys.admits (s : Sys) : SysEvent → Option WsId
  | .arrive _ (.create id _ _) => some id
  | e => ((s.acting e).bind Proc.callOf).map (·.ws)

/-- An admission counts, or the state that was read is active. -/
theorem StartCall.next_start {me : Pid} {a : Answer} {c c' : StartCall} {st : Option Starts}
    (h : c.next cfg me a w = some (stmt, c', st)) (hpc : c'.pc = .start) :
    ∃ ref state, c.pc = .admission ref state ∧
      (c.input.activates = true → state ∈ ACTIVE_WORKSPACE_STATES ∨ hasCapacity cfg (some c.ws) w = true) := by
  obtain ⟨⟨stmt', pc, st'⟩, hn, he⟩ := Option.map_eq_some_iff.1 h
  cases he
  obtain ⟨ws, input, pc₀⟩ := c
  obtain rfl : pc = .start := hpc
  revert hn
  fun_cases CallPc.next cfg me ws input pc₀ a w
  case case11 ref state hcap =>
    rintro ⟨⟩
    refine ⟨ref, state, rfl, fun ha => ?_⟩
    simpa [show input.activates = true from ha, or_iff_not_imp_left] using hcap
  all_goals rintro ⟨⟩

/-- A run that takes a slot was there before, or a call or a parent that takes one has started it. -/
theorem Sys.Lineage.activating_run (hl : s.Lineage) (h : (lifecycle cfg).step s e = some s') {X : RunId} {r' : Run}
    (hX : s'.procs X = some (.run r')) (hf : r'.inFlight = true) (ha : r'.input.activates = true) :
    s.Activating r'.ws := by
  rcases (Sys.origin h hX).run with ⟨r, hr, hsame⟩ | ⟨n, a, p, p', stmt, x, rfl, hp, hn, rfl, -, rfl⟩
  · rw [hsame.ws]
    rw [hsame.input] at ha
    exact Sys.activating_run hr (hsame.inFlight hf) ha
  · have hocc : x.input.occupies = true := by
      have hx : x.input.activates = true := ha
      simp [Input.occupies, hx]
    cases hst : p.starter n with
    | call c =>
      have hcn : p.starter n = .call n := by cases p <;> first | rfl | cases hst
      obtain ⟨c, hc, hpc, hws, hinput⟩ := Proc.next_starts_call hn hcn
      show s.Activating x.ws
      rw [hws]
      exact Sys.activating_call hp hc hpc (hinput ▸ ha)
    | parent m =>
      obtain ⟨rfl, -, q, rfl, hws, hroots⟩ := (hl.started hp hn).2 m hst hocc
      show s.Activating x.ws
      rw [← hws]
      obtain ⟨r', st', hr, -, -⟩ := Proc.next_run hn
      exact Sys.activating_run hp hr.inFlight (Input.activates_of_roots hroots)

/-- A workspace for which nothing was in flight has just been admitted. -/
theorem Sys.activating_step (hl : s.Lineage) (hg : WithinCapacity cfg s e) (h : (lifecycle cfg).step s e = some s')
    {row : Workspace} (hrow : s.world.liveRow id = some row) (hact : s'.Activating id) :
    s.Activating id ∨ row.state.occupied = true ∨ (s.admits e = some id ∧ hasCapacity cfg (some id) s.world = true) := by
  obtain ⟨n, q, hq, hact⟩ := hact
  rcases Proc.activates_cases hact with ⟨r', rfl, hf, ha, rfl⟩ | ⟨c', hc', hpc', ha, rfl⟩
  · exact .inl (hl.activating_run h hq hf ha)
  · rcases Sys.callOf_step hg.asked h hq hc' with hp | ⟨a, p, c, stmt, st, rfl, hp, hc, hn⟩ | ⟨hnew, -⟩
    · exact .inl (Sys.activating_call hp hc' hpc' ha)
    · right
      obtain ⟨hws, hinput⟩ := StartCall.next_same hn
      obtain ⟨ref, state, hpc, hcap⟩ := StartCall.next_start hn hpc'
      have hadmits : s.admits (.act n a) = some c'.ws := by
        simp [Sys.admits, Sys.acting, hp, hc, hws]
      rw [hinput] at ha
      rw [hws] at hrow hadmits ⊢
      obtain ⟨ws, input, pc⟩ := c
      obtain rfl : pc = .admission ref state := hpc
      have hroom : row.state.occupied = true ∨ hasCapacity cfg (some ws) s.world = true := by
        rcases hcap ha with hstate | hcap
        · have hcounted := hg.counted
          simp only [AdmitsCounted, Sys.acting, hp, Option.bind_some, hc] at hcounted
          exact (hcounted ha hstate).imp_left fun hall => by simpa [hrow] using hall
        · exact .inr hcap
      exact hroom.imp_right fun hroom => ⟨hadmits, hroom⟩
    · rw [hpc'] at hnew
      cases hnew

/-- A statement that puts a row into a state that takes a slot is performed while a run that takes one is in flight. -/
theorem Sys.Performs.occupies (ho : s.OneRun) (hl : s.Lineage) (hperf : s.Performs cfg e stmt) (hocc : stmt.occupies id) :
    s.Activating id := by
  have hact : ∃ n a p p' st, e = .act n a ∧ s.procs n = some p ∧ p.next cfg n a s.world = some (stmt, p', st) := by
    refine hperf.act_of ?_ ?_ ?_
    · rintro rfl; exact hocc
    · rintro j release idle rfl; exact hocc
    · rintro x rfl; cases x <;> exact hocc
  obtain ⟨n, a, p, p', st, rfl, hp, hn⟩ := hact
  cases p with
  | run r =>
    obtain ⟨r', st', hr, -, -⟩ := Proc.next_run hn
    have hf := hr.inFlight
    cases hr with
    | @body b d at_ hb =>
      obtain ⟨rfl, hact | hfor⟩ := Body.next_occupies hb hocc
      · exact Sys.activating_run hp hf hact
      · -- a stop for a rebuild is a child, and its parent waits for it
        cases hst : r.starter with
        | call c => cases hfor.symm.trans (hl.called n r c hp hst)
        | parent m =>
          have hinput : r.input.occupies = true := by simp [Input.occupies, hfor]
          obtain ⟨hchild, q, hq, hws, hroots⟩ := hl.child n r m hp hst hinput
          obtain ⟨q', c, hq', hcpc, -⟩ := ho.awaited n r m hp hf hst hchild
          cases hq.symm.trans hq'
          rw [← hws]
          exact Sys.activating_run hq (Run.inFlight_of_childPc hcpc) (Input.activates_of_roots hroots)
    | @finished outcome at_ ok =>
      cases outcome with
      | ok => exact hocc.elim
      | failed error state =>
        obtain rfl := hl.closing n r error state hp at_
        exact hocc.elim
    | retried at_ => exact hocc.elim
  | _ =>
    have hd := Proc.next_does hn
    cases hd with
    | call hcall => cases stmt <;> first | exact hocc.elim | exact hcall.elim
    | _ => exact hocc.elim

/-- A workspace that takes a slot after a step took one before, or was admitted with room for it. -/
theorem Sys.occupies_step (ho : s.OneRun) (hl : s.Lineage) (hg : WithinCapacity cfg s e)
    (h : (lifecycle cfg).step s e = some s') (hocc : s'.Occupies id) :
    s.Occupies id ∨ (s.admits e = some id ∧ hasCapacity cfg (some id) s.world = true) := by
  obtain ⟨row', hrow', hlive', hocc⟩ := Sys.occupies_iff.1 hocc
  obtain ⟨stmt, hperf, hw⟩ := Sys.world_step h
  rw [hw] at hrow'
  cases hrow : s.world.rows id with
  | some row =>
    obtain rfl : row' = stmt.onRow cfg s.world id row := Option.some.inj (hrow'.symm.trans (hperf.rows_kept hrow))
    have hlive := Stmt.onRow_deletedAt hlive'
    have before : row.state.occupied = true ∨ s.Activating id → s.Occupies id := fun hocc =>
      Sys.occupies_iff.2 ⟨row, hrow, hlive, hocc⟩
    rcases hocc with hstate | hact
    · rcases Stmt.onRow_occupied hstate with hstate | hstmt
      · exact .inl (before (.inl hstate))
      · exact .inl (before (.inr (hperf.occupies ho hl hstmt)))
    · rcases Sys.activating_step hl hg h (World.liveRow_eq_some.2 ⟨hrow, hlive⟩) hact with hact | hstate | hadm
      · exact .inl (before (.inr hact))
      · exact .inl (before (.inl hstate))
      · exact .inr hadm
  | none =>
    -- the row has just been inserted
    right
    cases hperf with
    | arrive free ha =>
      rename_i n i p
      rcases Arrival.accept_cases ha with ⟨j, release, idle, rfl, hj, rfl, -⟩ | ⟨rfl, -⟩
      · have hji : j = id := by
          by_contra hne
          rw [Stmt.exec_rows cfg _ s.world id (by rintro _ _ ⟨⟩; exact hne rfl), hrow] at hrow'
          cases hrow'
        subst hji
        simp only [Arrival.accept] at ha
        split at ha
        · next hcap => exact ⟨rfl, hasCapacity_some hcap.2.2 j⟩
        · cases ha
      · cases hrow.symm.trans hrow'
    | act hp hn =>
      rw [Stmt.exec_rows cfg stmt s.world id, hrow] at hrow'
      · cases hrow'
      · rintro release idle rfl
        exact (Proc.next_does hn).ne_insert
    | halt => cases hrow.symm.trans hrow'
    | @env x =>
      rw [Stmt.exec_rows cfg _ s.world id (by rintro _ _ hx; cases x <;> cases hx), hrow] at hrow'
      cases hrow'

/-! ## The ceiling -/

theorem Stmt.ids_exec (cfg : Config) (stmt : Stmt) {w : World} (h : id ∈ w.ids) : id ∈ (stmt.exec cfg w).ids := by
  cases stmt with
  | insertWorkspace j release idle => exact List.mem_append_left _ h
  | deleteSandbox name how => cases how <;> exact h
  | _ => exact h

/-- Every row is listed. -/
theorem listed_of_reach {G : Sys → SysEvent → Prop} (h : (lifecycle cfg).Reach G s) :
    ∀ id row, s.world.rows id = some row → id ∈ s.world.ids := by
  refine h.invariant (I := fun s => ∀ id row, s.world.rows id = some row → id ∈ s.world.ids) ?_ ?_
  · rintro s ⟨⟨now, hw⟩, -⟩ id row hrow
    rw [hw] at hrow
    cases hrow
  · intro s e s' _ hlisted _ hstep id row' hrow'
    obtain ⟨stmt, -, hw⟩ := Sys.world_step hstep
    rw [hw] at hrow' ⊢
    by_cases hins : ∀ release idle, stmt ≠ .insertWorkspace id release idle
    · rw [Stmt.exec_rows cfg stmt s.world id hins] at hrow'
      obtain ⟨row, hrow, -⟩ := Option.map_eq_some_iff.1 hrow'
      exact stmt.ids_exec cfg (hlisted id row hrow)
    · simp only [not_forall, not_not] at hins
      obtain ⟨release, idle, rfl⟩ := hins
      exact List.mem_append_right _ (List.mem_singleton.2 rfl)

/-- No more workspaces take a slot than the configuration allows. -/
def Sys.Within (cfg : Config) (s : Sys) : Prop :=
  ∀ F : Finset WsId, (∀ id ∈ F, s.Occupies id) → F.card ≤ cfg.maxRunningWorkspaces

theorem Sys.Within.step (hw : s.Within cfg) (hlisted : ∀ id row, s.world.rows id = some row → id ∈ s.world.ids)
    (hi : s.CallsInOrder) (ho : s.OneRun) (hl : s.Lineage) (hg : WithinCapacity cfg s e)
    (h : (lifecycle cfg).step s e = some s') : s'.Within cfg := by
  intro F hF
  by_cases hold : ∀ id ∈ F, s.Occupies id
  · exact hw F hold
  -- one workspace is new, and the others were counted when it was admitted
  push Not at hold
  obtain ⟨id, hid, hnew⟩ := hold
  obtain ⟨hadmits, hroom⟩ := (Sys.occupies_step ho hl hg h (hF id hid)).resolve_left hnew
  have hothers : ∀ j ∈ F.erase id, j ≠ id ∧ ∃ row, s.world.liveRow j = some row ∧ row.counts = true := by
    intro j hj
    obtain ⟨hne, hj⟩ := Finset.mem_erase.1 hj
    rcases Sys.occupies_step ho hl hg h (hF j hj) with hocc | ⟨hadmits', -⟩
    · exact ⟨hne, hocc.counts hi ho hl⟩
    · exact absurd (Option.some.inj (hadmits'.symm.trans hadmits)) hne
  have hcard : (F.erase id).card ≤ activeWorkspaces (some id) s.world := card_le_activeWorkspaces hlisted hothers
  have hlt : activeWorkspaces (some id) s.world < cfg.maxRunningWorkspaces := by
    simpa [hasCapacity] using hroom
  have herase : (F.erase id).card + 1 = F.card := Finset.card_erase_add_one hid
  omega

theorem within_of_reach (h : (lifecycle cfg).Reach (WithinCapacity cfg) s) : s.Within cfg := by
  refine h.invariant (fun s hs F hF => ?_) fun t e u ht hw hg hst => ?_
  · obtain ⟨⟨now, hw⟩, -⟩ := hs
    have hempty : F = ∅ := by
      refine Finset.eq_empty_of_forall_notMem fun id hid => ?_
      obtain ⟨row, hrow, -⟩ := Sys.occupies_iff.1 (hF id hid)
      rw [hw] at hrow
      cases hrow
    simp [hempty]
  · exact hw.step (listed_of_reach ht) (callsInOrder_of_reach ht) (oneRun_of_reach (fun _ _ hg => hg.oneAtATime) ht)
      (lineage_of_reach (fun _ _ hg => hg.asked) ht) hg hst

/-- The workspaces that take a slot, or are about to, are never more than the configuration allows. -/
theorem capacity_ceiling (h : (lifecycle cfg).Reach (WithinCapacity cfg) s) {F : Finset WsId}
    (hF : ∀ id ∈ F, s.Occupies id) : F.card ≤ cfg.maxRunningWorkspaces := within_of_reach h F hF

/-- A deployment for `n` workspaces at a time. -/
def deploymentFor (n : Nat) : Config := { deployment with maxRunningWorkspaces := n }

/-- Two workspaces run, one is stopped, and a third one takes its slot. -/
theorem capacity_ceiling_third : ∃ s : Sys, s.Occupies 1 ∧ s.Occupies 2 ∧ ({1, 2} : Finset WsId).card ≤ 2 := by
  obtain ⟨s, hs, h1, h2⟩ := exists_reach_of_execs (G := WithinCapacity (deploymentFor 2))
    (fun s : Sys => s.Occupies 1 ∧ s.Occupies 2)
    (createsWorkspace 0 0 1 7 ++ createsWorkspace 1 2 3 7 ++ stops 0 4 5 ++ createsWorkspace 2 6 7 7)
    (lifecycle_init (deploymentFor 2) 0) (by decide) (by decide)
  refine ⟨s, h1, h2, capacity_ceiling hs fun id hid => ?_⟩
  rcases Finset.mem_insert.1 hid with rfl | hid
  · exact h1
  · rw [Finset.mem_singleton.1 hid]
    exact h2

/-- A rebuild reads a running workspace; the VM turns out to be lost and another workspace is created in its place; the
rebuild is admitted without a count. -/
theorem capacity_exceeded : ¬ ∀ (cfg : Config) (s : Sys) (F : Finset WsId),
    (lifecycle cfg).Reach (fun s e => OneAtATime s e ∧ e.Asked) s → (∀ id ∈ F, s.Occupies id) →
      F.card ≤ cfg.maxRunningWorkspaces := by
  intro h
  obtain ⟨s, hs, h0, h1⟩ := exists_reach_of_execs (G := fun s e => OneAtATime s e ∧ e.Asked)
    (fun s : Sys => s.Occupies 0 ∧ s.Occupies 1)
    (createsWorkspace 0 0 1 7 ++ [.arrive 2 (.start 0 (.rebuildWorkspace none))] ++ steps 2 2 ++
      [.env (.endSession (newSandboxName 0 1) ⟨.stopped, rfl⟩), .arrive 4 (.connect 0 .reconnect 9 (some "dev-1"))] ++
      steps 4 2 ++ [.act 4 (.release oldRelease), .act 4 (.sandboxStatus (some (some .stopped)))] ++ steps 4 2 ++
      createsWorkspace 1 5 6 7 ++ [.act 2 .ok, .act 2 (.started 3)])
    (lifecycle_init (deploymentFor 1) 0) (by decide) (by decide)
  have hcard := h (deploymentFor 1) s {0, 1} hs fun id hid => by
    rcases Finset.mem_insert.1 hid with rfl | hid
    · exact h0
    · rw [Finset.mem_singleton.1 hid]
      exact h1
  have htwo : ({0, 1} : Finset WsId).card = 2 := rfl
  rw [htwo] at hcard
  exact absurd hcard (by decide)

end Zedspaces.Lifecycle
