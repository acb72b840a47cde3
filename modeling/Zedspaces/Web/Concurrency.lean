/-
`mapConcurrent`: a fixed number of workers take the items in order off one cursor, wait for the call of their item and
put its outcome in the item's slot. Whatever order the calls come back in, an item is called for when the cursor passes
it and the calls under way are those of the workers that wait (`Pool.Ok`); every run comes to its end when the calls do
(`work_step`), with every slot filled by its own item's outcome.

What runs without an await in between is cut into one step a loop round here, so that the runs of the source are among
those of the model; a call that throws at once is one that comes back rejected before anything else happens.
-/
import Zedspaces.Lib.Promises
import Zedspaces.Lib.System
import Mathlib.Data.List.Nodup
import Mathlib.Data.Rat.Floor

namespace Zedspaces.Web

open Lib

/-- `PromiseSettledResult<R>` -/
inductive SettledResult (R E : Type) where
  | fulfilled (value : R)
  | rejected (reason : E)
  deriving DecidableEq, Repr

/-- Where a worker is: at the head of its loop, waiting for the call for an index, or returned. -/
inductive Worker where
  | looping
  | waiting (index : Nat)
  | returned
  deriving DecidableEq, Repr

/-- `calls` are the arguments `fn` was called with, in order. -/
structure Pool (T R E : Type) where
  next : Nat
  results : List (Option (SettledResult R E))
  workers : List Worker
  calls : List (T × Nat)
  deriving DecidableEq, Repr

/-- The index a worker waits for. -/
def Worker.index? : Worker → Option Nat
  | .waiting index => some index
  | _ => none

/-- The steps a worker has before it, but for those that take an item. -/
def Worker.work : Worker → Nat
  | .looping => 1
  | .waiting _ => 2
  | .returned => 0

/-- A worker is started, a worker goes round its loop, or the call a worker waits for comes back. -/
inductive PoolStep (R E : Type) where
  | start
  | round (worker : Nat)
  | settle (worker index : Nat) (outcome : SettledResult R E)

section
variable {T R E : Type}

/-- `Math.max(1, Math.floor(n))`, the number of calls that may be in flight. -/
def concurrencyLimit (n : ℚ) : Int := max 1 ⌊n⌋

namespace Pool

variable (items : List T) (n : ℚ)

/-- The workers that are started. -/
def width : Nat := (min (concurrencyLimit n) items.length).toNat

def init : Pool T R E := ⟨0, List.replicate items.length none, [], []⟩

/-- One round of `worker`: the next index is taken and `fn` is called, or there is none left. -/
def round (pool : Pool T R E) (worker : Nat) : Pool T R E :=
  match items[pool.next]? with
  | some item =>
    { pool with
      next := pool.next + 1
      workers := pool.workers.set worker (.waiting pool.next)
      calls := pool.calls ++ [(item, pool.next)] }
  | none => { pool with workers := pool.workers.set worker .returned }

/-- `results[index] = …` -/
def settle (pool : Pool T R E) (worker index : Nat) (outcome : SettledResult R E) : Pool T R E :=
  { pool with
    results := pool.results.set index (some outcome)
    workers := pool.workers.set worker .looping }

def step (pool : Pool T R E) : PoolStep R E → Option (Pool T R E)
  | .start => if pool.workers.length < width items n then some { pool with workers := pool.workers ++ [.looping] } else none
  | .round worker => if pool.workers[worker]? = some .looping then some (pool.round items worker) else none
  | .settle worker index outcome =>
    if pool.workers[worker]? = some (.waiting index) then some (pool.settle worker index outcome) else none

def system : System (Pool T R E) (PoolStep R E) where
  init pool := pool = init items
  step := step items n

/-- `Promise.all(workers)` is fulfilled: every worker was started and has returned. -/
def Resolved (pool : Pool T R E) : Prop :=
  pool.workers.length = width items n ∧ ∀ worker ∈ pool.workers, worker = .returned

/-- The calls that have not come back. -/
def inFlight (pool : Pool T R E) : List (T × Nat) :=
  pool.calls.filter fun call => pool.results[call.2]?.any Option.isNone

/-- What holds after the steps `es`. -/
structure Ok (es : List (PoolStep R E)) (pool : Pool T R E) : Prop where
  next : pool.next ≤ items.length
  calls : pool.calls = items.zipIdx.take pool.next
  size : pool.results.length = items.length
  width : pool.workers.length ≤ width items n
  /-- A worker waits for a call that was made and has not come back. -/
  waits : ∀ (k : Nat) (i : Nat), pool.workers[k]? = some (.waiting i) → i < pool.next ∧ pool.results[i]? = some none
  alone : ∀ j k i : Nat, pool.workers[j]? = some (.waiting i) → pool.workers[k]? = some (.waiting i) → j = k
  /-- A call that was made has come back, or a worker waits for it. -/
  back : ∀ i < pool.next, pool.results[i]? = some none → ∃ k : Nat, pool.workers[k]? = some (.waiting i)
  ahead : ∀ i, pool.next ≤ i → i < items.length → pool.results[i]? = some none
  slots : ∀ (i : Nat) (outcome : SettledResult R E), pool.results[i]? = some (some outcome) ↔
    ∃ k, .settle k i outcome ∈ es
  /-- A worker returns when there is nothing left to take. -/
  done : ∀ k : Nat, pool.workers[k]? = some .returned → pool.next = items.length

variable {items n} {es : List (PoolStep R E)} {pool pool' : Pool T R E}

theorem mem_inFlight {call : T × Nat} :
    call ∈ pool.inFlight ↔ call ∈ pool.calls ∧ pool.results[call.2]? = some none := by
  rw [inFlight, List.mem_filter, Option.any_eq_true]
  simp

theorem ok_init : Ok items n [] (init items : Pool T R E) := by
  have hslots : ∀ i : Nat, (List.replicate items.length (none : Option (SettledResult R E)))[i]? =
      if i < items.length then some none else none := fun i => List.getElem?_replicate
  refine ⟨Nat.zero_le _, rfl, List.length_replicate, Nat.zero_le _, ?_, ?_, ?_, ?_, ?_, ?_⟩
  · rintro k i ⟨⟩
  · rintro j k i ⟨⟩
  · rintro i hi
    exact absurd hi (Nat.not_lt_zero i)
  · intro i _ hi
    exact (hslots i).trans (if_pos hi)
  · intro i outcome
    refine iff_of_false (fun h => ?_) (by simp)
    have h' := (hslots i).symm.trans h
    split at h' <;> cases h'
  · rintro k ⟨⟩

/-! ## The steps -/

/-- A step that calls nothing and settles nothing, after which the same calls are waited for. -/
theorem Ok.of_waiting (h : Ok items n es pool) {workers : List Worker} {e : PoolStep R E}
    (hwidth : workers.length ≤ Pool.width items n)
    (hwaiting : ∀ k i : Nat, workers[k]? = some (.waiting i) ↔ pool.workers[k]? = some (.waiting i))
    (hdone : ∀ k : Nat, workers[k]? = some .returned → pool.next = items.length)
    (hsettle : ∀ k i outcome, .settle k i outcome ≠ e) :
    Ok items n (es ++ [e]) { pool with workers := workers } := by
  refine ⟨h.next, h.calls, h.size, hwidth, ?_, ?_, ?_, h.ahead, ?_, hdone⟩
  · intro k i hk
    exact h.waits k i ((hwaiting k i).1 hk)
  · intro j k i hj hk
    exact h.alone j k i ((hwaiting j i).1 hj) ((hwaiting k i).1 hk)
  · intro i hi hnone
    obtain ⟨k, hk⟩ := h.back i hi hnone
    exact ⟨k, (hwaiting k i).2 hk⟩
  · intro i outcome
    rw [h.slots i outcome]
    simp [hsettle]

theorem Ok.start (h : Ok items n es pool) (hlt : pool.workers.length < Pool.width items n) :
    Ok items n (es ++ [.start]) { pool with workers := pool.workers ++ [.looping] } := by
  have hworkers : ∀ (k : Nat) (worker : Worker), worker ≠ .looping →
      ((pool.workers ++ [.looping])[k]? = some worker ↔ pool.workers[k]? = some worker) := by
    intro k worker hne
    rw [getElem?_concat_eq_some]
    exact ⟨fun hor => hor.resolve_right fun heq => hne heq.2, .inl⟩
  refine h.of_waiting ?_ (fun k i => hworkers k _ (by simp)) ?_ (by simp)
  · rw [List.length_append]
    exact hlt
  · intro k hk
    exact h.done k ((hworkers k _ (by simp)).1 hk)

/-- A worker that takes the next index and calls for its item. -/
theorem Ok.take (h : Ok items n es pool) {worker : Nat} {item : T} (hworker : pool.workers[worker]? = some .looping)
    (hitem : items[pool.next]? = some item) : Ok items n (es ++ [.round worker])
      { pool with
        next := pool.next + 1
        workers := pool.workers.set worker (.waiting pool.next)
        calls := pool.calls ++ [(item, pool.next)] } := by
  have hlt : pool.next < items.length := (List.getElem?_eq_some_iff.1 hitem).1
  have hset := fun (k : Nat) (w : Worker) => @getElem?_set_eq_some _ _ (.waiting pool.next) w _ _ k hworker
  refine ⟨hlt, ?_, h.size, ?_, ?_, ?_, ?_, ?_, ?_, ?_⟩
  · rw [List.take_add_one, ← h.calls, List.getElem?_zipIdx, hitem]
    simp
  · rw [List.length_set]
    exact h.width
  · intro k i hk
    rcases (hset k _).1 hk with ⟨-, heq⟩ | ⟨-, hk⟩
    · cases heq
      exact ⟨Nat.lt_succ_self _, h.ahead _ le_rfl hlt⟩
    · obtain ⟨hi, hnone⟩ := h.waits k i hk
      exact ⟨hi.trans (Nat.lt_succ_self _), hnone⟩
  · -- the others wait for earlier calls
    intro j k i hj hk
    rcases (hset j _).1 hj with ⟨hjw, heq⟩ | ⟨-, hjold⟩
    · rcases (hset k _).1 hk with ⟨hkw, -⟩ | ⟨-, hkold⟩
      · rw [hjw, hkw]
      · cases heq
        exact absurd (h.waits k _ hkold).1 (Nat.lt_irrefl _)
    · rcases (hset k _).1 hk with ⟨-, heq⟩ | ⟨-, hkold⟩
      · cases heq
        exact absurd (h.waits j _ hjold).1 (Nat.lt_irrefl _)
      · exact h.alone j k i hjold hkold
  · intro i hi hnone
    rcases Nat.lt_succ_iff_lt_or_eq.1 hi with hi | rfl
    · obtain ⟨k, hk⟩ := h.back i hi hnone
      refine ⟨k, (hset k _).2 (.inr ⟨?_, hk⟩)⟩
      rintro rfl
      cases hk.symm.trans hworker
    · exact ⟨worker, (hset worker _).2 (.inl ⟨rfl, rfl⟩)⟩
  · intro i hi
    exact h.ahead i (Nat.le_of_succ_le hi)
  · intro i outcome
    rw [h.slots i outcome]
    simp
  · intro k hk
    rcases (hset k _).1 hk with ⟨-, heq⟩ | ⟨-, hk⟩
    · cases heq
    · exact absurd (h.done k hk) (Nat.ne_of_lt hlt)

/-- A worker that finds no item left returns. -/
theorem Ok.leave (h : Ok items n es pool) {worker : Nat} (hworker : pool.workers[worker]? = some .looping)
    (hnone : items[pool.next]? = none) :
    Ok items n (es ++ [.round worker]) { pool with workers := pool.workers.set worker .returned } := by
  have hset := fun (k : Nat) (w : Worker) => @getElem?_set_eq_some _ _ .returned w _ _ k hworker
  have hwaiting : ∀ k i : Nat, (pool.workers.set worker .returned)[k]? = some (.waiting i) ↔
      pool.workers[k]? = some (.waiting i) := by
    intro k i
    rw [hset]
    constructor
    · rintro (⟨-, ⟨⟩⟩ | ⟨-, hk⟩)
      exact hk
    · intro hk
      refine .inr ⟨?_, hk⟩
      rintro rfl
      cases hk.symm.trans hworker
  refine h.of_waiting ?_ hwaiting ?_ (by simp)
  · rw [List.length_set]
    exact h.width
  · intro k _
    exact le_antisymm h.next (List.getElem?_eq_none_iff.1 hnone)

theorem Ok.settle (h : Ok items n es pool) {worker index : Nat} {outcome : SettledResult R E}
    (hworker : pool.workers[worker]? = some (.waiting index)) :
    Ok items n (es ++ [.settle worker index outcome]) (pool.settle worker index outcome) := by
  obtain ⟨hindex, hempty⟩ := h.waits worker index hworker
  have hset := fun (k : Nat) (w : Worker) => @getElem?_set_eq_some _ _ .looping w _ _ k hworker
  have hslot := fun (i : Nat) (slot : Option (SettledResult R E)) =>
    @getElem?_set_eq_some _ _ (some outcome) slot _ _ i hempty
  -- the worker that goes on was the only one to wait for the call
  have hwaiting : ∀ k i : Nat, (pool.workers.set worker .looping)[k]? = some (.waiting i) ↔
      i ≠ index ∧ pool.workers[k]? = some (.waiting i) := by
    intro k i
    rw [hset]
    constructor
    · rintro (⟨-, ⟨⟩⟩ | ⟨hne, hk⟩)
      refine ⟨?_, hk⟩
      rintro rfl
      exact hne (h.alone k worker i hk hworker)
    · rintro ⟨hne, hk⟩
      refine .inr ⟨?_, hk⟩
      rintro rfl
      cases hk.symm.trans hworker
      exact hne rfl
  refine ⟨h.next, h.calls, ?_, ?_, ?_, ?_, ?_, ?_, ?_, ?_⟩
  · rw [Pool.settle, List.length_set]
    exact h.size
  · rw [Pool.settle, List.length_set]
    exact h.width
  · intro k i hk
    obtain ⟨hne, hk⟩ := (hwaiting k i).1 hk
    obtain ⟨hi, hnone⟩ := h.waits k i hk
    exact ⟨hi, (hslot i _).2 (.inr ⟨hne, hnone⟩)⟩
  · intro j k i hj hk
    exact h.alone j k i ((hwaiting j i).1 hj).2 ((hwaiting k i).1 hk).2
  · intro i hi hnone
    rcases (hslot i _).1 hnone with ⟨-, ⟨⟩⟩ | ⟨hne, hnone⟩
    obtain ⟨k, hk⟩ := h.back i hi hnone
    exact ⟨k, (hwaiting k i).2 ⟨hne, hk⟩⟩
  · intro i hi hlt
    refine (hslot i _).2 (.inr ⟨?_, h.ahead i hi hlt⟩)
    rintro rfl
    exact absurd hindex (Nat.not_lt.2 hi)
  · intro i outcome'
    rw [Pool.settle, hslot, h.slots i outcome']
    constructor
    · rintro (⟨rfl, heq⟩ | ⟨-, k, hk⟩)
      · cases heq
        exact ⟨worker, by simp⟩
      · exact ⟨k, by simp [hk]⟩
    · rintro ⟨k, hk⟩
      rcases List.mem_append.1 hk with hearlier | hlast
      · -- a slot that was filled is not the call's
        refine .inr ⟨?_, k, hearlier⟩
        rintro rfl
        have hfilled := (h.slots i outcome').2 ⟨k, hearlier⟩
        rw [hempty] at hfilled
        cases hfilled
      · simp only [List.mem_singleton, PoolStep.settle.injEq] at hlast
        exact .inl ⟨hlast.2.1, by rw [hlast.2.2]⟩
  · intro k hk
    rcases (hset k _).1 hk with ⟨-, ⟨⟩⟩ | ⟨-, hk⟩
    exact h.done k hk

theorem Ok.step (h : Ok items n es pool) {e : PoolStep R E} (hstep : pool.step items n e = some pool') :
    Ok items n (es ++ [e]) pool' := by
  cases e with
  | start =>
    simp only [Pool.step] at hstep
    split at hstep
    · next hlt =>
      cases hstep
      exact h.start hlt
    · cases hstep
  | round worker =>
    simp only [Pool.step] at hstep
    split at hstep
    · next hworker =>
      cases hstep
      unfold Pool.round
      split
      · next item hitem => exact h.take hworker hitem
      · next hnone => exact h.leave hworker hnone
    · cases hstep
  | settle worker index outcome =>
    simp only [Pool.step] at hstep
    split at hstep
    · next hworker =>
      cases hstep
      exact h.settle hworker
    · cases hstep

theorem ok_of_exec (h : (system items n).exec (init items) es = some pool) : Ok items n es pool :=
  System.exec_invariant ok_init (fun _ _ _ _ hok hstep => hok.step hstep) h

/-! ## What a run comes to -/

/-- Each call that has not come back has a worker that waits for it. -/
theorem Ok.inFlight_le (h : Ok items n es pool) : pool.inFlight.length ≤ Pool.width items n := by
  have hindices : (pool.inFlight.map Prod.snd).Nodup := by
    have hsub : (pool.inFlight.map Prod.snd).Sublist (items.zipIdx.map Prod.snd) := by
      refine List.Sublist.map _ (List.filter_sublist.trans ?_)
      rw [h.calls]
      exact List.take_sublist _ _
    refine List.Nodup.sublist hsub ?_
    rw [List.zipIdx_map_snd]
    exact List.nodup_range'
  have hwaits : pool.inFlight.map Prod.snd ⊆ pool.workers.filterMap Worker.index? := by
    intro i hi
    obtain ⟨call, hcall, rfl⟩ := List.mem_map.1 hi
    obtain ⟨hmade, hempty⟩ := mem_inFlight.1 hcall
    rw [h.calls] at hmade
    obtain ⟨j, hj, hget⟩ := List.getElem_of_mem hmade
    have hnext : call.2 < pool.next := by
      have hlt : j < pool.next := (List.length_take .. ▸ hj).trans_le (Nat.min_le_left _ _)
      rw [List.getElem_take, List.getElem_zipIdx] at hget
      rw [← hget]
      simpa using hlt
    obtain ⟨k, hk⟩ := h.back call.2 hnext hempty
    exact List.mem_filterMap.2 ⟨_, List.mem_of_getElem? hk, rfl⟩
  have hlength := (List.subperm_of_subset hindices hwaits).length_le
  rw [List.length_map] at hlength
  exact hlength.trans ((List.length_filterMap_le _ _).trans h.width)

theorem width_le_limit : (Pool.width items n : Int) ≤ concurrencyLimit n := by
  have hlimit : 1 ≤ concurrencyLimit n := le_max_left _ _
  unfold Pool.width
  omega

theorem width_pos (h : items ≠ []) : 0 < Pool.width items n := by
  have hlimit : 1 ≤ concurrencyLimit n := le_max_left _ _
  have hlength : 0 < items.length := List.length_pos_iff.2 h
  unfold Pool.width
  omega

/-- The workers return when the cursor is at the end. -/
theorem Ok.next_eq (h : Ok items n es pool) (hresolved : pool.Resolved items n) : pool.next = items.length := by
  by_cases hitems : items = []
  · have hnext := h.next
    rw [hitems, List.length_nil] at hnext ⊢
    exact Nat.le_zero.1 hnext
  · have hpos : 0 < pool.workers.length := hresolved.1 ▸ width_pos hitems
    exact h.done 0 ((List.getElem?_eq_getElem hpos).trans (congrArg some (hresolved.2 _ (List.getElem_mem hpos))))

theorem Ok.resolved (h : Ok items n es pool) (hresolved : pool.Resolved items n) :
    pool.calls = items.zipIdx ∧ ∀ i < items.length, ∃ outcome, pool.results[i]? = some (some outcome) := by
  have hnext := h.next_eq hresolved
  refine ⟨?_, fun i hi => ?_⟩
  · rw [h.calls, hnext, ← List.length_zipIdx (l := items), List.take_length]
  · have hsize : i < pool.results.length := h.size.symm ▸ hi
    cases hslot : pool.results[i] with
    | some outcome => exact ⟨outcome, (List.getElem?_eq_getElem hsize).trans (congrArg some hslot)⟩
    | none =>
      -- a worker would wait for it
      have hnone : pool.results[i]? = some none := (List.getElem?_eq_getElem hsize).trans (congrArg some hslot)
      obtain ⟨k, hk⟩ := h.back i (hnext ▸ hi) hnone
      cases hresolved.2 _ (List.mem_of_getElem? hk)

/-- Until the end a worker can be started or go on, or a call is under way. -/
theorem Ok.goes_on (h : Ok items n es pool) : pool.Resolved items n ∨ pool.inFlight ≠ [] ∨
    (∃ pool', pool.step items n .start = some pool') ∨ ∃ worker pool', pool.step items n (.round worker) = some pool' := by
  by_cases hwidth : pool.workers.length < Pool.width items n
  · exact .inr (.inr (.inl ⟨_, if_pos hwidth⟩))
  by_cases hlooping : Worker.looping ∈ pool.workers
  · obtain ⟨worker, hworker⟩ := List.getElem?_of_mem hlooping
    exact .inr (.inr (.inr ⟨worker, _, if_pos hworker⟩))
  by_cases hwaiting : ∃ i, Worker.waiting i ∈ pool.workers
  · obtain ⟨i, hi⟩ := hwaiting
    obtain ⟨k, hk⟩ := List.getElem?_of_mem hi
    obtain ⟨hlt, hempty⟩ := h.waits k i hk
    have hitem : i < items.length := hlt.trans_le h.next
    have hcall : (items[i], i) ∈ pool.calls := by
      rw [h.calls, List.mem_iff_getElem?]
      refine ⟨i, ?_⟩
      rw [List.getElem?_take_of_lt hlt, List.getElem?_zipIdx, List.getElem?_eq_getElem hitem]
      simp
    exact .inr (.inl (List.ne_nil_of_mem (mem_inFlight.2 ⟨hcall, hempty⟩)))
  · refine .inl ⟨le_antisymm h.width (Nat.le_of_not_lt hwidth), fun worker hmem => ?_⟩
    cases worker with
    | looping => exact absurd hmem hlooping
    | waiting i => exact absurd ⟨i, hmem⟩ hwaiting
    | returned => rfl

/-! ## Every run ends -/

/-- The steps before the end: two for an item that is not taken, two for a worker that is not started. -/
def work (items : List T) (n : ℚ) (pool : Pool T R E) : Nat :=
  2 * (items.length - pool.next) + (pool.workers.map Worker.work).sum + 2 * (Pool.width items n - pool.workers.length)

theorem sum_work_set {workers : List Worker} {k : Nat} {before after : Worker} (h : workers[k]? = some before) :
    ((workers.set k after).map Worker.work).sum + before.work = (workers.map Worker.work).sum + after.work := by
  induction workers generalizing k with
  | nil => cases h
  | cons worker workers ih =>
    cases k with
    | zero =>
      cases h
      simp only [List.set_cons_zero, List.map_cons, List.sum_cons]
      omega
    | succ k =>
      have := ih h
      simp only [List.set_cons_succ, List.map_cons, List.sum_cons]
      omega

/-- Every step leaves one step less. -/
theorem work_step {e : PoolStep R E} (hstep : pool.step items n e = some pool') :
    pool'.work items n + 1 = pool.work items n := by
  cases e with
  | start =>
    simp only [Pool.step] at hstep
    split at hstep
    · next hlt =>
      cases hstep
      simp only [work, List.map_append, List.sum_append, List.length_append, List.map_cons, List.map_nil,
        List.sum_cons, List.sum_nil, List.length_cons, List.length_nil, Worker.work]
      omega
    · cases hstep
  | round worker =>
    simp only [Pool.step] at hstep
    split at hstep
    · next hworker =>
      cases hstep
      unfold Pool.round
      split
      · next item hitem =>
        have hlt := (List.getElem?_eq_some_iff.1 hitem).1
        have hsum := @sum_work_set _ _ _ (.waiting pool.next) hworker
        simp only [Worker.work] at hsum
        simp only [work, List.length_set]
        omega
      · have hsum := @sum_work_set _ _ _ .returned hworker
        simp only [Worker.work] at hsum
        simp only [work, List.length_set]
        omega
    · cases hstep
  | settle worker index outcome =>
    simp only [Pool.step] at hstep
    split at hstep
    · next hworker =>
      cases hstep
      have hsum := @sum_work_set _ _ _ .looping hworker
      simp only [Worker.work] at hsum
      simp only [Pool.settle, work, List.length_set]
      omega
    · cases hstep

theorem work_of_exec (h : (system items n).exec (init items) es = some pool) :
    es.length + pool.work items n = 2 * (items.length + Pool.width items n) := by
  have hinit : (init items : Pool T R E).work items n = 2 * (items.length + Pool.width items n) := by
    simp only [work, init, List.map_nil, List.sum_nil, List.length_nil]
    omega
  rw [← hinit]
  refine (System.exec_invariant (I := fun es pool => Ok items n es pool ∧
    es.length + pool.work items n = (init items : Pool T R E).work items n) ?_ ?_ h).2
  · exact ⟨ok_init, by simp⟩
  · rintro es e pool pool' ⟨hok, hsum⟩ hstep
    have := work_step hstep
    refine ⟨hok.step hstep, ?_⟩
    rw [List.length_append, List.length_singleton]
    omega

end Pool

open Pool

/-- Whatever order the calls come back in, and whatever they come back with: `fn` is called for the items in their
order, each with its index and no more than once; no more calls than the limit are under way; the run goes on until it
resolves, in a bounded number of steps; and when it resolves every index was called for and every slot holds what its
own item's call came to. -/
theorem map_concurrent {items : List T} {n : ℚ} {es : List (PoolStep R E)} {pool : Pool T R E}
    (h : (system items n).exec (init items) es = some pool) :
    pool.calls <+: items.zipIdx ∧ (pool.inFlight.length : Int) ≤ max 1 ⌊n⌋ ∧
      (pool.Resolved items n → pool.calls = items.zipIdx ∧ pool.results.length = items.length ∧
        ∀ i < items.length, (∃ outcome, pool.results[i]? = some (some outcome)) ∧
          ∀ outcome, pool.results[i]? = some (some outcome) ↔ ∃ worker, .settle worker i outcome ∈ es) ∧
      (pool.Resolved items n ∨ pool.inFlight ≠ [] ∨ (∃ pool', pool.step items n .start = some pool') ∨
        ∃ worker pool', pool.step items n (.round worker) = some pool') ∧
      es.length ≤ 2 * (items.length + width items n) := by
  have hok := ok_of_exec h
  refine ⟨?_, ?_, fun hresolved => ?_, hok.goes_on, ?_⟩
  · rw [hok.calls]
    exact List.take_prefix _ _
  · exact (Int.ofNat_le.2 hok.inFlight_le).trans width_le_limit
  · obtain ⟨hcalls, hslots⟩ := hok.resolved hresolved
    exact ⟨hcalls, hok.size, fun i hi => ⟨hslots i hi, hok.slots i⟩⟩
  · have := work_of_exec h
    omega

/-- Three items, two at a time; the second call comes back first, and the first fails. -/
theorem map_concurrent_failed : ∃ pool : Pool Char Nat String,
    pool.results = [some (.rejected "no"), some (.fulfilled 7), some (.fulfilled 9)] ∧
      pool.calls <+: ['a', 'b', 'c'].zipIdx ∧ (pool.inFlight.length : Int) ≤ max 1 ⌊(5 / 2 : ℚ)⌋ := by
  have hrun : (system ['a', 'b', 'c'] (5 / 2)).exec (init ['a', 'b', 'c'] : Pool Char Nat String)
      [.start, .round 0, .start, .round 1, .settle 1 1 (.fulfilled 7), .round 1, .settle 0 0 (.rejected "no"),
        .round 0, .settle 1 2 (.fulfilled 9), .round 1] =
      some ⟨3, [some (.rejected "no"), some (.fulfilled 7), some (.fulfilled 9)], [.returned, .returned],
        [('a', 0), ('b', 1), ('c', 2)]⟩ := by decide +kernel
  have h := map_concurrent hrun
  exact ⟨_, rfl, h.1, h.2.1⟩

end

end Zedspaces.Web
