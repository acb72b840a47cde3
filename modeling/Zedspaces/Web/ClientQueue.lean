/-
The queue in front of the local database's client (`localClientQueue`). `tail` is a chain of promises, one a call: an
operation starts when the chain reaches it and lets it go on with its answer; a transaction lets it go on when it could
not begin, or when one of its commit, rollback or close came back. The chain's shape is kept by every step (`Chained`).

Only a client of the `file` protocol is wrapped. The members that are not queued, and a transaction's own statements,
do not touch the chain and are left out.
-/
import Zedspaces.Lib.Promises
import Zedspaces.Lib.System
import Mathlib.Algebra.GroupWithZero.Nat
import Mathlib.Data.List.Sort

namespace Zedspaces.Web.ClientQueue

open Lib

/-- `queued`. -/
inductive ClientMethod where
  | execute
  | batch
  | migrate
  | executeMultiple
  | sync
  deriving DecidableEq, Repr

inductive CallKind where
  | operation (method : ClientMethod)
  | transaction
  deriving DecidableEq, Repr

/-- `answer` is what the operation, or the begin of the transaction, came to; `ends` what the commits, rollbacks and
closes did, `ending` of which are still to come back. `isOpen` is the database's view of the transaction. -/
structure QueuedCall where
  kind : CallKind
  started : Bool
  answer : Option Outcome
  isOpen : Bool
  ending : Nat
  ends : List Outcome
  deriving DecidableEq, Repr

/-- `tail` as it stood after so many calls. `turn` is the `result` of an operation, or what a transaction `held`. -/
inductive QueuePromise where
  | tail (calls : Nat)
  | turn (id : Nat)
  deriving DecidableEq, Repr

/-- `hold` returns the promise that the transaction holds; `pass` settles the next tail. -/
inductive QueueJob where
  | start (id : Nat)
  | hold (id : Nat)
  | pass (id : Nat)
  deriving DecidableEq, Repr

/-- `starts` are the calls in the order the client got them in. -/
structure Queue where
  calls : List QueuedCall
  promises : Promises QueuePromise QueueJob
  starts : List Nat

namespace QueuedCall

def new (kind : CallKind) : QueuedCall := ⟨kind, false, none, false, 0, []⟩

/-- A transaction may be open from the time its begin is asked for. -/
def start (c : QueuedCall) : QueuedCall := { c with started := true, isOpen := c.kind = .transaction }

def answered (c : QueuedCall) (outcome : Outcome) : QueuedCall :=
  { c with answer := some outcome, isOpen := c.isOpen && outcome = .fulfilled }

/-- A commit, rollback or close comes back; one that failed leaves the transaction as it is. -/
def ended (c : QueuedCall) (outcome : Outcome) : QueuedCall :=
  { c with ends := c.ends ++ [outcome], isOpen := c.isOpen && outcome = .rejected }

/-- The caller was given its transaction. -/
def IsGiven (c : QueuedCall) : Prop := c.kind = .transaction ∧ c.answer = some .fulfilled

instance (c : QueuedCall) : Decidable c.IsGiven := inferInstanceAs (Decidable (_ ∧ _))

/-- The client works on it: an operation, or the begin of a transaction. -/
def Running (c : QueuedCall) : Prop := c.started = true ∧ c.answer = none

instance (c : QueuedCall) : Decidable c.Running := inferInstanceAs (Decidable (_ ∧ _))

/-- An operation that was answered; a transaction that did not begin, or of which a commit, a rollback or a close came
back. -/
def Finished (c : QueuedCall) : Prop :=
  if c.kind = .transaction then c.answer = some .rejected ∨ c.ends ≠ [] else c.answer ≠ none

instance (c : QueuedCall) : Decidable c.Finished := 
  inferInstanceAs (Decidable
    (if c.kind = .transaction then c.answer = some .rejected ∨ c.ends ≠ [] else c.answer ≠ none))

end QueuedCall

namespace Queue

/-! ## `localClientQueue` -/

/-- `result = tail.then(…)`, `tail = result.then(…, …)`. -/
def operation (st : Queue) (method : ClientMethod) : Queue :=
  let id := st.calls.length
  { st with
    calls := st.calls ++ [.new (.operation method)]
    promises := (st.promises.andThen (.tail id) (.start id)).andThen (.turn id) (.pass id) }

/-- `tail = previous.then(() => held)`, `await previous`. -/
def transaction (st : Queue) : Queue :=
  let id := st.calls.length
  { st with
    calls := st.calls ++ [.new .transaction]
    promises := (st.promises.andThen (.tail id) (.hold id)).andThen (.tail id) (.start id) }

/-- `result` settles, or a transaction's `release` is called. -/
def settle (st : Queue) (id : Nat) (outcome : Outcome) : Queue :=
  { st with promises := st.promises.settle (.turn id) outcome }

/-- One job of the queue. -/
def react (st : Queue) (p : QueuePromise) (job : QueueJob) : Option Queue := do
  let (_, promises) ← st.promises.take p job
  match job with
  | .start id => (st.calls[id]?).map fun c =>
    { calls := st.calls.set id c.start, promises, starts := st.starts ++ [id] }
  | .hold id => some { st with promises := promises.andThen (.turn id) (.pass id) }
  | .pass id => some { st with promises := promises.settle (.tail (id + 1)) .fulfilled }

/-- The client answers an operation or a begin; a begin that failed releases. -/
def answered (st : Queue) (id : Nat) (outcome : Outcome) : Option Queue := do
  let c ← st.calls[id]?
  if c.Running then
    let st := { st with calls := st.calls.set id (c.answered outcome) }
    if c.kind = .transaction ∧ outcome = .fulfilled then some st else some (st.settle id outcome)
  else none

/-- The caller asks for a commit or a rollback. -/
def ends (st : Queue) (id : Nat) : Option Queue := do
  let c ← st.calls[id]?
  if c.IsGiven then some { st with calls := st.calls.set id { c with ending := c.ending + 1 } } else none

/-- A commit or a rollback comes back: `finally` releases. -/
def ended (st : Queue) (id : Nat) (outcome : Outcome) : Option Queue := do
  let c ← st.calls[id]?
  if 0 < c.ending then
    some ({ st with calls := st.calls.set id { c.ended outcome with ending := c.ending - 1 } }.settle id .fulfilled)
  else none

/-- `close`, which comes back at once. -/
def close (st : Queue) (id : Nat) (outcome : Outcome) : Option Queue := do
  let c ← st.calls[id]?
  if c.IsGiven then some ({ st with calls := st.calls.set id (c.ended outcome) }.settle id .fulfilled) else none

/-- The database ends a transaction: a commit or a rollback takes effect, or it is rolled back by an error. -/
def databaseEnds (st : Queue) (id : Nat) : Option Queue := do
  let c ← st.calls[id]?
  if c.isOpen then some { st with calls := st.calls.set id { c with isOpen := false } } else none

end Queue

inductive QueueEvent where
  | operation (method : ClientMethod)
  | transaction
  | react (p : QueuePromise) (job : QueueJob)
  | answered (id : Nat) (outcome : Outcome)
  | ends (id : Nat)
  | ended (id : Nat) (outcome : Outcome)
  | close (id : Nat) (outcome : Outcome)
  | databaseEnds (id : Nat)

/-- `tail` is a resolved promise at first. -/
def localClient : System Queue QueueEvent where
  init st := st = ⟨[], Promises.empty.settle (.tail 0) .fulfilled, []⟩
  step st
    | .operation method => some (st.operation method)
    | .transaction => some st.transaction
    | .react p job => st.react p job
    | .answered id outcome => st.answered id outcome
    | .ends id => st.ends id
    | .ended id outcome => st.ended id outcome
    | .close id outcome => st.close id outcome
    | .databaseEnds id => st.databaseEnds id

/-! ## The chain -/

/-- Its promise is settled. -/
def Queue.Done (st : Queue) (p : QueuePromise) : Prop := (st.promises.outcome p).isSome = true

/-- What holds of each call by itself. -/
structure QueuedCall.Sound (c : QueuedCall) : Prop where
  answer_started : c.answer ≠ none → c.started = true
  given : c.ends ≠ [] ∨ 0 < c.ending → c.IsGiven
  open_started : c.isOpen = true → c.started = true ∧ c.kind = .transaction ∧ c.answer ≠ some .rejected
  /-- The transaction outlives only what failed. -/
  open_failed : c.isOpen = true → ∀ outcome ∈ c.ends, outcome = .rejected

/-- The shape of the chain. -/
structure Chained (st : Queue) : Prop where
  sound : ∀ (i : Nat) (c : QueuedCall), st.calls[i]? = some c → c.Sound
  turn : ∀ i, st.Done (.turn i) ↔ ∃ c : QueuedCall, st.calls[i]? = some c ∧ c.Finished
  tail_zero : st.Done (.tail 0)
  tail_succ : ∀ i, st.Done (.tail (i + 1)) → st.Done (.turn i)
  /-- A call starts when the tail it was made at is settled. -/
  started : ∀ (i : Nat) (c : QueuedCall), st.calls[i]? = some c → c.started = true → st.Done (.tail i)
  start : ∀ q i, (q, .start i) ∈ st.promises.reactions ↔ q = .tail i ∧
    ∃ c : QueuedCall, st.calls[i]? = some c ∧ c.started = false
  hold : ∀ q i, (q, .hold i) ∈ st.promises.reactions → q = .tail i ∧ i < st.calls.length
  pass : ∀ q i, (q, .pass i) ∈ st.promises.reactions → q = .turn i ∧ i < st.calls.length
  /-- The tail of a call is settled, or a job that leads there is registered. -/
  waits : ∀ i, i < st.calls.length → st.Done (.tail (i + 1)) ∨ (.tail i, .hold i) ∈ st.promises.reactions ∨
    (.turn i, .pass i) ∈ st.promises.reactions
  mem_starts : ∀ i, i ∈ st.starts ↔ ∃ c : QueuedCall, st.calls[i]? = some c ∧ c.started = true
  sorted : st.starts.Pairwise (· < ·)
  /-- A call that holds the tail has not passed it on. -/
  holding : ∀ i, (.tail i, .hold i) ∈ st.promises.reactions → (.turn i, .pass i) ∉ st.promises.reactions
  nodup : st.promises.reactions.Nodup

section
variable {st st' : Queue} {c c' : QueuedCall} {i : Nat}

theorem QueuedCall.Sound.finished (h : c.Sound) (hfinished : c.Finished) : c.started = true := by
  refine h.answer_started ?_
  unfold QueuedCall.Finished at hfinished
  split at hfinished
  · rcases hfinished with hrejected | hends
    · rw [hrejected]
      exact Option.some_ne_none _
    · rw [(h.given (.inl hends)).2]
      exact Option.some_ne_none _
  · exact hfinished

/-- What the client works on is not finished. -/
theorem QueuedCall.Sound.running (h : c.Sound) (hrunning : c.Running) : ¬ c.Finished := by
  unfold QueuedCall.Finished
  rw [hrunning.2]
  split
  · rintro (hrejected | hends)
    · cases hrejected
    · cases hrunning.2.symm.trans (h.given (.inl hends)).2
  · exact fun hne => hne rfl

theorem chained_init : Chained ⟨[], Promises.empty.settle (.tail 0) .fulfilled, []⟩ := by
  constructor <;> simp [Queue.Done, Promises.settle_outcome, Promises.empty]

/-- The tail is settled up to a call only when those before it are finished. -/
theorem Chained.finished_before (h : Chained st) {j : Nat} (hdone : st.Done (.tail j)) (hij : i < j) :
    st.Done (.turn i) := by
  induction j with
  | zero => omega
  | succ j ih =>
    have hover := h.tail_succ j hdone
    rcases Nat.lt_succ_iff_lt_or_eq.1 hij with hlt | rfl
    · obtain ⟨c, hc, hfinished⟩ := (h.turn j).1 hover
      exact ih (h.started j c hc ((h.sound j c hc).finished hfinished)) hlt
    · exact hover

/-- An event at a call: it settles what the call holds the tail with when, and only when, the call is finished by it. -/
theorem Chained.update (h : Chained st) (hc : st.calls[i]? = some c) (hsound : c'.Sound)
    (hstarted : c'.started = c.started) (hcalls : st'.calls = st.calls.set i c')
    (hreactions : st'.promises.reactions = st.promises.reactions) (hstarts : st'.starts = st.starts)
    (hfinished : c.Finished → c'.Finished)
    (hdone : ∀ p, st'.Done p ↔ st.Done p ∨ p = .turn i ∧ c'.Finished) : Chained st' := by
  have hmono : ∀ {p}, st.Done p → st'.Done p := fun hp => (hdone _).2 (.inl hp)
  have htail : ∀ n, st'.Done (.tail n) ↔ st.Done (.tail n) := fun n => by simp [hdone]
  -- a call that is started was so before
  have hrun : ∀ (b : Bool) (j : Nat), (∃ d : QueuedCall, st'.calls[j]? = some d ∧ d.started = b) ↔
      ∃ d : QueuedCall, st.calls[j]? = some d ∧ d.started = b := by
    intro b j
    rw [hcalls, exists_getElem?_set hc, hstarted]
    by_cases hj : j = i
    · subst hj
      simp [hc]
    · simp [hj]
  constructor
  · intro j d hd
    rw [hcalls, getElem?_set_eq_some hc] at hd
    rcases hd with ⟨-, rfl⟩ | ⟨-, hd⟩
    · exact hsound
    · exact h.sound j d hd
  · intro j
    rw [hdone, hcalls, exists_getElem?_set hc, h.turn]
    by_cases hj : j = i
    · subst hj
      simp [hc]
      tauto
    · simp [hj]
  · exact hmono h.tail_zero
  · exact fun j hj => hmono (h.tail_succ j ((htail _).1 hj))
  · intro j d hd hrunning
    obtain ⟨d', hd', hrunning'⟩ := (hrun true j).1 ⟨d, hd, hrunning⟩
    exact hmono (h.started j d' hd' hrunning')
  · intro q j
    rw [hreactions, h.start, hrun]
  · rw [hreactions, hcalls, List.length_set]
    exact h.hold
  · rw [hreactions, hcalls, List.length_set]
    exact h.pass
  · rw [hreactions, hcalls, List.length_set]
    exact fun j hj => (h.waits j hj).imp_left hmono
  · intro j
    rw [hstarts, hrun, h.mem_starts]
  · rw [hstarts]
    exact h.sorted
  · rw [hreactions]
    exact h.holding
  · rw [hreactions]
    exact h.nodup

/-- A call starts when its turn has come; the calls before it are finished. -/
theorem Chained.starting (h : Chained st) (hc : st.calls[i]? = some c) (hwaiting : c.started = false)
    (hdone : st.Done (.tail i)) (hcalls : st'.calls = st.calls.set i c.start)
    (hpromises : st'.promises = { st.promises with reactions := st.promises.reactions.erase (.tail i, .start i) })
    (hstarts : st'.starts = st.starts ++ [i]) : Chained st' := by
  have hsame : ∀ p, st'.Done p ↔ st.Done p := fun p => by rw [Queue.Done, hpromises, Queue.Done]
  have hmem : ∀ q job, (q, job) ∈ st'.promises.reactions ↔
      (q, job) ∈ st.promises.reactions ∧ ¬ (q = .tail i ∧ job = .start i) := by
    intro q job
    rw [hpromises]
    exact Promises.mem_erase h.nodup
  have hlength : st'.calls.length = st.calls.length := by rw [hcalls, List.length_set]
  have hsound := h.sound i c hc
  have hnot : ¬ c.Finished := fun hfinished => by simp [hsound.finished hfinished] at hwaiting
  have hunanswered : c.answer = none := by
    by_contra hne
    simp [hsound.answer_started hne] at hwaiting
  have hends : c.ends = [] := by
    by_contra hne
    cases hunanswered.symm.trans (hsound.given (.inl hne)).2
  constructor
  · intro j d hd
    rw [hcalls, getElem?_set_eq_some hc] at hd
    rcases hd with ⟨-, rfl⟩ | ⟨-, hd⟩
    · refine ⟨fun _ => rfl, hsound.given, fun hopen => ⟨rfl, of_decide_eq_true hopen, ?_⟩, ?_⟩
      · simp [QueuedCall.start, hunanswered]
      · simp [QueuedCall.start, hends]
    · exact h.sound j d hd
  · intro j
    rw [hsame, hcalls, exists_getElem?_set hc, h.turn]
    by_cases hj : j = i
    · subst hj
      simp only [hc, Option.some.injEq, exists_eq_left', true_and, not_true_eq_false, false_and, or_false, ne_eq]
      exact Iff.rfl
    · simp [hj]
  · exact (hsame _).2 h.tail_zero
  · exact fun j hj => (hsame _).2 (h.tail_succ j ((hsame _).1 hj))
  · intro j d hd hrunning
    rw [hsame]
    rw [hcalls, getElem?_set_eq_some hc] at hd
    rcases hd with ⟨rfl, -⟩ | ⟨-, hd⟩
    · exact hdone
    · exact h.started j d hd hrunning
  · intro q j
    rw [hmem, h.start, hcalls, exists_getElem?_set hc]
    by_cases hj : j = i
    · subst hj
      simp [QueuedCall.start]
      tauto
    · simp [hj]
  · intro q j hjob
    rw [hlength]
    exact h.hold q j ((hmem _ _).1 hjob).1
  · intro q j hjob
    rw [hlength]
    exact h.pass q j ((hmem _ _).1 hjob).1
  · intro j hj
    rw [hlength] at hj
    rw [hsame, hmem, hmem]
    refine (h.waits j hj).imp_right (Or.imp (fun hjob => ⟨hjob, ?_⟩) fun hjob => ⟨hjob, ?_⟩)
    · exact fun heq => QueueJob.noConfusion heq.2
    · exact fun heq => QueueJob.noConfusion heq.2
  · intro j
    rw [hstarts, List.mem_append, List.mem_singleton, h.mem_starts, hcalls, exists_getElem?_set hc]
    by_cases hj : j = i
    · simp [hj, QueuedCall.start]
    · simp [hj]
  · rw [hstarts]
    refine List.pairwise_append.2 ⟨h.sorted, List.pairwise_singleton _ _, fun j hj k hk => ?_⟩
    rw [List.mem_singleton.1 hk]
    obtain ⟨d, hd, hrunning⟩ := (h.mem_starts j).1 hj
    rcases Nat.lt_trichotomy j i with hlt | rfl | hgt
    · exact hlt
    · cases hc.symm.trans hd
      simp [hrunning] at hwaiting
    · -- a later call started only when this one had finished
      have hover := (h.turn i).1 (h.finished_before (h.started j d hd hrunning) hgt)
      obtain ⟨d', hd', hfinished⟩ := hover
      cases hc.symm.trans hd'
      exact absurd hfinished hnot
  · intro j hjob hpass
    exact h.holding j ((hmem _ _).1 hjob).1 ((hmem _ _).1 hpass).1
  · rw [hpromises]
    exact h.nodup.erase _

/-- The handler of a transaction's tail returns what the transaction holds. -/
theorem Chained.held (h : Chained st) (hjob : (.tail i, .hold i) ∈ st.promises.reactions)
    (hcalls : st'.calls = st.calls) (hstarts : st'.starts = st.starts)
    (hpromises : st'.promises = ({ st.promises with reactions := st.promises.reactions.erase (.tail i, .hold i) } :
      Promises QueuePromise QueueJob).andThen (.turn i) (.pass i)) : Chained st' := by
  have hsame : ∀ p, st'.Done p ↔ st.Done p := fun p => by
    rw [Queue.Done, hpromises, Promises.andThen_outcome, Queue.Done]
  have hmem : ∀ q job, (q, job) ∈ st'.promises.reactions ↔
      (q, job) ∈ st.promises.reactions ∧ ¬ (q = .tail i ∧ job = .hold i) ∨ q = .turn i ∧ job = .pass i := by
    intro q job
    rw [hpromises, Promises.mem_andThen]
    exact or_congr_left (Promises.mem_erase h.nodup)
  constructor
  · rw [hcalls]
    exact h.sound
  · intro j
    rw [hsame, hcalls, h.turn]
  · exact (hsame _).2 h.tail_zero
  · exact fun j hj => (hsame _).2 (h.tail_succ j ((hsame _).1 hj))
  · intro j d hd hrunning
    rw [hcalls] at hd
    exact (hsame _).2 (h.started j d hd hrunning)
  · intro q j
    rw [hmem, h.start, hcalls]
    simp
  · intro q j hold
    rw [hcalls]
    refine h.hold q j (((hmem _ _).1 hold).resolve_right fun heq => ?_).1
    exact QueueJob.noConfusion heq.2
  · intro q j hpass
    rw [hcalls]
    rcases (hmem _ _).1 hpass with hold | ⟨rfl, heq⟩
    · exact h.pass q j hold.1
    · cases heq
      exact ⟨rfl, (h.hold _ _ hjob).2⟩
  · intro j hj
    rw [hcalls] at hj
    rw [hsame, hmem, hmem]
    by_cases hid : j = i
    · exact .inr (.inr (.inr (by rw [hid]; exact ⟨rfl, rfl⟩)))
    · refine (h.waits j hj).imp_right (Or.imp (fun hold => .inl ⟨hold, ?_⟩) fun hpass => .inl ⟨hpass, ?_⟩)
      · exact fun heq => hid (QueueJob.hold.inj heq.2)
      · exact fun heq => QueueJob.noConfusion heq.2
  · intro j
    rw [hstarts, hcalls, h.mem_starts]
  · rw [hstarts]
    exact h.sorted
  · intro j hold hpass
    obtain ⟨hold, hne⟩ := ((hmem _ _).1 hold).resolve_right fun heq => QueueJob.noConfusion heq.2
    rcases (hmem _ _).1 hpass with hpass | ⟨-, heq⟩
    · exact h.holding j hold hpass.1
    · cases heq
      exact hne ⟨rfl, rfl⟩
  · rw [hpromises]
    refine Promises.andThen_nodup (h.nodup.erase _) fun hpass => ?_
    exact h.holding i hjob (List.mem_of_mem_erase hpass)

/-- The next tail settles, for a call that is over. -/
theorem Chained.passed (h : Chained st) (hover : st.Done (.turn i)) (outcome : Outcome)
    (hcalls : st'.calls = st.calls) (hstarts : st'.starts = st.starts)
    (hpromises : st'.promises = ({ st.promises with reactions := st.promises.reactions.erase (.turn i, .pass i) } :
      Promises QueuePromise QueueJob).settle (.tail (i + 1)) outcome) : Chained st' := by
  have hdone : ∀ p, st'.Done p ↔ p = .tail (i + 1) ∨ st.Done p := by
    intro p
    rw [Queue.Done, hpromises, Promises.settle_isSome]
    rfl
  have hmono : ∀ {p}, st.Done p → st'.Done p := fun hp => (hdone _).2 (.inr hp)
  have hmem : ∀ q job, (q, job) ∈ st'.promises.reactions ↔
      (q, job) ∈ st.promises.reactions ∧ ¬ (q = .turn i ∧ job = .pass i) := by
    intro q job
    rw [hpromises, Promises.settle_reactions]
    exact Promises.mem_erase h.nodup
  constructor
  · rw [hcalls]
    exact h.sound
  · intro j
    rw [hdone, hcalls, h.turn]
    simp
  · exact hmono h.tail_zero
  · intro j hj
    rcases (hdone _).1 hj with heq | hj
    · cases heq
      exact hmono hover
    · exact hmono (h.tail_succ j hj)
  · intro j d hd hrunning
    rw [hcalls] at hd
    exact hmono (h.started j d hd hrunning)
  · intro q j
    rw [hmem, h.start, hcalls]
    simp
  · intro q j hold
    rw [hcalls]
    exact h.hold q j ((hmem _ _).1 hold).1
  · intro q j hpass
    rw [hcalls]
    exact h.pass q j ((hmem _ _).1 hpass).1
  · intro j hj
    rw [hcalls] at hj
    rw [hdone, hmem, hmem]
    by_cases hid : j = i
    · exact .inl (.inl (by rw [hid]))
    · refine (h.waits j hj).imp .inr (Or.imp (fun hold => ⟨hold, ?_⟩) fun hpass => ⟨hpass, ?_⟩)
      · exact fun heq => QueueJob.noConfusion heq.2
      · exact fun heq => hid (QueueJob.pass.inj heq.2)
  · intro j
    rw [hstarts, hcalls, h.mem_starts]
  · rw [hstarts]
    exact h.sorted
  · exact fun j hold hpass => h.holding j ((hmem _ _).1 hold).1 ((hmem _ _).1 hpass).1
  · rw [hpromises, Promises.settle_reactions]
    exact h.nodup.erase _

/-- A call takes its place: its start, and the job that leads to the next tail. -/
theorem Chained.called (h : Chained st) (kind : CallKind) {q₀ : QueuePromise} {job₀ : QueueJob}
    (hnext : q₀ = .turn st.calls.length ∧ job₀ = .pass st.calls.length ∨
      q₀ = .tail st.calls.length ∧ job₀ = .hold st.calls.length)
    (hcalls : st'.calls = st.calls ++ [.new kind]) (hstarts : st'.starts = st.starts)
    (houtcome : st'.promises.outcome = st.promises.outcome)
    (hmem : ∀ q job, (q, job) ∈ st'.promises.reactions ↔ (q, job) ∈ st.promises.reactions ∨
      q = .tail st.calls.length ∧ job = .start st.calls.length ∨ q = q₀ ∧ job = job₀)
    (hnodup : st'.promises.reactions.Nodup) : Chained st' := by
  have hsame : ∀ p, st'.Done p ↔ st.Done p := fun p => by rw [Queue.Done, houtcome, Queue.Done]
  have hlength : st'.calls.length = st.calls.length + 1 := by rw [hcalls, List.length_append]; rfl
  have hlt : ∀ {q j}, (q, .hold j) ∈ st.promises.reactions ∨ (q, .pass j) ∈ st.promises.reactions →
      j < st.calls.length := by
    rintro q j (hold | hpass)
    · exact (h.hold q j hold).2
    · exact (h.pass q j hpass).2
  constructor
  · intro j c hc
    rw [hcalls, getElem?_concat_eq_some] at hc
    rcases hc with hc | ⟨-, rfl⟩
    · exact h.sound j c hc
    · constructor <;> simp [QueuedCall.new]
  · intro j
    rw [hsame, hcalls, exists_getElem?_concat, h.turn, or_iff_left]
    rintro ⟨-, hfinished⟩
    cases kind <;> simp [QueuedCall.Finished, QueuedCall.new] at hfinished
  · exact (hsame _).2 h.tail_zero
  · exact fun j hj => (hsame _).2 (h.tail_succ j ((hsame _).1 hj))
  · intro j c hc hrunning
    rw [hcalls, getElem?_concat_eq_some] at hc
    rcases hc with hc | ⟨-, rfl⟩
    · exact (hsame _).2 (h.started j c hc hrunning)
    · cases hrunning
  · intro q j
    rw [hmem, h.start, hcalls, exists_getElem?_concat]
    rcases hnext with ⟨rfl, rfl⟩ | ⟨rfl, rfl⟩ <;> simp [QueuedCall.new] <;> grind
  · intro q j hold
    rw [hlength]
    rcases (hmem _ _).1 hold with hold | ⟨-, heq⟩ | ⟨rfl, rfl⟩
    · exact ⟨(h.hold q j hold).1, by have := (h.hold q j hold).2; omega⟩
    · cases heq
    · obtain ⟨-, heq⟩ | ⟨rfl, heq⟩ := hnext
      · cases heq
      · cases heq
        exact ⟨rfl, by omega⟩
  · intro q j hpass
    rw [hlength]
    rcases (hmem _ _).1 hpass with hpass | ⟨-, heq⟩ | ⟨rfl, rfl⟩
    · exact ⟨(h.pass q j hpass).1, by have := (h.pass q j hpass).2; omega⟩
    · cases heq
    · obtain ⟨rfl, heq⟩ | ⟨-, heq⟩ := hnext
      · cases heq
        exact ⟨rfl, by omega⟩
      · cases heq
  · intro j hj
    rw [hlength] at hj
    rw [hsame, hmem, hmem]
    rcases Nat.lt_succ_iff_lt_or_eq.1 hj with hlt | rfl
    · exact (h.waits j hlt).imp_right (Or.imp .inl .inl)
    · refine .inr ?_
      obtain ⟨rfl, rfl⟩ | ⟨rfl, rfl⟩ := hnext
      · exact .inr (.inr (.inr ⟨rfl, rfl⟩))
      · exact .inl (.inr (.inr ⟨rfl, rfl⟩))
  · intro j
    rw [hstarts, hcalls, exists_getElem?_concat, h.mem_starts, or_iff_left]
    simp [QueuedCall.new]
  · rw [hstarts]
    exact h.sorted
  · intro j hold hpass
    have hne : ∀ {k}, k < st.calls.length → k ≠ st.calls.length := fun hk heq => by omega
    rcases (hmem _ _).1 hold with hold | ⟨-, heq⟩ | ⟨rfl, rfl⟩
    · rcases (hmem _ _).1 hpass with hpass | ⟨-, heq⟩ | ⟨rfl, rfl⟩
      · exact h.holding j hold hpass
      · cases heq
      · obtain ⟨heq, -⟩ | ⟨heq, -⟩ := hnext
        · exact hne (hlt (.inl hold)) (QueuePromise.turn.inj heq)
        · cases heq
    · cases heq
    · obtain ⟨heq, -⟩ | ⟨heq, -⟩ := hnext
      · cases heq
      · cases heq
        rcases (hmem _ _).1 hpass with hpass | ⟨-, heq⟩ | ⟨heq, -⟩
        · exact hne (hlt (.inr hpass)) rfl
        · cases heq
        · cases heq
  · exact hnodup

/-- No reaction is a new call's. -/
theorem Chained.fresh (h : Chained st) (q : QueuePromise) :
    (q, .start st.calls.length) ∉ st.promises.reactions ∧ (q, .hold st.calls.length) ∉ st.promises.reactions ∧
    (q, .pass st.calls.length) ∉ st.promises.reactions := by
  refine ⟨fun hjob => ?_, fun hjob => ?_, fun hjob => ?_⟩
  · obtain ⟨-, c, hc, -⟩ := (h.start _ _).1 hjob
    simp at hc
  · have := (h.hold _ _ hjob).2
    omega
  · have := (h.pass _ _ hjob).2
    omega

theorem Chained.operation (h : Chained st) (method : ClientMethod) : Chained (st.operation method) := by
  refine h.called (.operation method) (.inl ⟨rfl, rfl⟩) rfl rfl rfl (fun q job => ?_) ?_
  · simp [Queue.operation, or_assoc]
  · refine Promises.andThen_nodup (Promises.andThen_nodup h.nodup (h.fresh _).1) ?_
    rw [Promises.mem_andThen, not_or]
    exact ⟨(h.fresh _).2.2, fun heq => QueueJob.noConfusion heq.2⟩

theorem Chained.transaction (h : Chained st) : Chained st.transaction := by
  refine h.called .transaction (.inr ⟨rfl, rfl⟩) rfl rfl rfl (fun q job => ?_) ?_
  · simp only [Queue.transaction, Promises.mem_andThen, or_assoc]
    tauto
  · refine Promises.andThen_nodup (Promises.andThen_nodup h.nodup (h.fresh _).2.1) ?_
    rw [Promises.mem_andThen, not_or]
    exact ⟨(h.fresh _).1, fun heq => QueueJob.noConfusion heq.2⟩

theorem Queue.Done.of_outcome {p : QueuePromise} {outcome : Outcome} (hp : st.promises.outcome p = some outcome) :
    st.Done p := by
  rw [Queue.Done, hp]
  rfl

/-- What a job does. -/
theorem react_eq_some {p : QueuePromise} {job : QueueJob} (hreact : st.react p job = some st') :
    (p, job) ∈ st.promises.reactions ∧ st.Done p ∧
    (let rest : Promises QueuePromise QueueJob := { st.promises with reactions := st.promises.reactions.erase (p, job) }
    (∃ i c, job = .start i ∧ st.calls[i]? = some c ∧ st' = ⟨st.calls.set i c.start, rest, st.starts ++ [i]⟩) ∨
    (∃ i, job = .hold i ∧ st' = { st with promises := rest.andThen (.turn i) (.pass i) }) ∨
    ∃ i, job = .pass i ∧ st' = { st with promises := rest.settle (.tail (i + 1)) .fulfilled }) := by
  unfold Queue.react at hreact
  obtain ⟨⟨outcome, promises⟩, htake, hreact⟩ := Option.bind_eq_some_iff.1 hreact
  obtain ⟨hmem, hp, rfl⟩ := Promises.take_eq_some htake
  refine ⟨hmem, .of_outcome hp, ?_⟩
  cases job with
  | start i =>
    obtain ⟨c, hc, rfl⟩ := Option.map_eq_some_iff.1 hreact
    exact .inl ⟨i, c, rfl, hc, rfl⟩
  | hold i =>
    cases hreact
    exact .inr (.inl ⟨i, rfl, rfl⟩)
  | pass i =>
    cases hreact
    exact .inr (.inr ⟨i, rfl, rfl⟩)

theorem Chained.react (h : Chained st) {p : QueuePromise} {job : QueueJob} (hreact : st.react p job = some st') :
    Chained st' := by
  obtain ⟨hmem, hdone, ⟨i, c, rfl, hc, rfl⟩ | ⟨i, rfl, rfl⟩ | ⟨i, rfl, rfl⟩⟩ := react_eq_some hreact
  · obtain ⟨rfl, c', hc', hwaiting⟩ := (h.start _ _).1 hmem
    cases hc.symm.trans hc'
    exact h.starting hc hwaiting hdone rfl rfl rfl
  · obtain ⟨rfl, -⟩ := h.hold _ _ hmem
    exact h.held hmem rfl rfl rfl
  · obtain ⟨rfl, -⟩ := h.pass _ _ hmem
    exact h.passed hdone .fulfilled rfl rfl rfl

/-- The promise a call holds the tail with. -/
theorem settle_done (p : QueuePromise) (outcome : Outcome) :
    (st.settle i outcome).Done p ↔ st.Done p ∨ p = .turn i := by
  rw [Queue.Done, Queue.settle, Promises.settle_isSome, or_comm]
  rfl

theorem Chained.answered (h : Chained st) {outcome : Outcome} (hstep : st.answered i outcome = some st') :
    Chained st' := by
  unfold Queue.answered at hstep
  obtain ⟨c, hc, hstep⟩ := Option.bind_eq_some_iff.1 hstep
  have hsound := h.sound i c hc
  split at hstep
  · next hrunning =>
    have hends : c.ends = [] := by
      by_contra hne
      cases hrunning.2.symm.trans (hsound.given (.inl hne)).2
    have hending : ¬ 0 < c.ending := fun hlt => by
      cases hrunning.2.symm.trans (hsound.given (.inr hlt)).2
    have hsound' : (c.answered outcome).Sound := by
      refine ⟨fun _ => hrunning.1, fun hor => ?_, fun hopen => ?_, fun _ => ?_⟩
      · exact (hor.elim (fun hne => hne hends) hending).elim
      · obtain ⟨hopen, hfulfilled⟩ := Bool.and_eq_true_iff.1 hopen
        refine ⟨hrunning.1, (hsound.open_started hopen).2.1, ?_⟩
        simp [QueuedCall.answered, of_decide_eq_true hfulfilled]
      · simp [QueuedCall.answered, hends]
    have hnot : c.Finished → (c.answered outcome).Finished := fun hfinished =>
      absurd hfinished (hsound.running hrunning)
    dsimp only at hstep
    split at hstep
    · next hbegun =>
      cases hstep
      obtain ⟨hkind, rfl⟩ := hbegun
      refine h.update hc hsound' rfl rfl rfl rfl hnot fun p => ?_
      simp [Queue.Done, QueuedCall.Finished, QueuedCall.answered, hkind, hends]
    · next hover =>
      cases hstep
      refine h.update hc hsound' rfl rfl Promises.settle_reactions rfl hnot fun p => ?_
      have hfinished : (c.answered outcome).Finished := by
        unfold QueuedCall.Finished
        split
        · next hkind =>
          cases outcome with
          | fulfilled => exact absurd ⟨hkind, rfl⟩ hover
          | rejected => exact .inl rfl
        · exact Option.some_ne_none _
      rw [settle_done, iff_true_intro hfinished, and_true]
      rfl
  · cases hstep

/-- What came back is the end of a transaction. -/
theorem QueuedCall.Sound.ended {ending : Nat} (h : c.Sound) (hgiven : c.IsGiven) (outcome : Outcome) :
    ({ c.ended outcome with ending } : QueuedCall).Sound ∧
    ({ c.ended outcome with ending } : QueuedCall).Finished := by
  refine ⟨⟨h.answer_started, fun _ => hgiven, fun hopen => ?_, fun hopen => ?_⟩, ?_⟩
  · exact h.open_started (Bool.and_eq_true_iff.1 hopen).1
  · obtain ⟨hopen, hrejected⟩ := Bool.and_eq_true_iff.1 hopen
    intro other hother
    rcases List.mem_append.1 hother with hold | hnew
    · exact h.open_failed hopen other hold
    · rw [List.mem_singleton.1 hnew]
      exact of_decide_eq_true hrejected
  · refine (if_pos hgiven.1).mpr (.inr ?_)
    exact List.append_ne_nil_of_right_ne_nil _ (List.cons_ne_nil _ _)

theorem Chained.release (h : Chained st) {ending : Nat} (hc : st.calls[i]? = some c) (hgiven : c.IsGiven)
    (outcome : Outcome) (hst : st' =
      { st with calls := st.calls.set i { c.ended outcome with ending } }.settle i .fulfilled) : Chained st' := by
  subst hst
  obtain ⟨hsound, hfinished⟩ := (h.sound i c hc).ended hgiven outcome
  refine h.update hc hsound rfl rfl Promises.settle_reactions rfl (fun _ => hfinished) fun p => ?_
  rw [settle_done, iff_true_intro hfinished, and_true]
  rfl

/-- An event that finishes no call. -/
theorem Chained.noted (h : Chained st) (hc : st.calls[i]? = some c) (hsound : c'.Sound)
    (hstarted : c'.started = c.started) (hfinished : c'.Finished ↔ c.Finished) :
    Chained { st with calls := st.calls.set i c' } := by
  refine h.update hc hsound hstarted rfl rfl rfl hfinished.2 fun p => (or_iff_left_of_imp ?_).symm
  rintro ⟨rfl, hfinished'⟩
  exact (h.turn i).2 ⟨c, hc, hfinished.1 hfinished'⟩

theorem Chained.step (h : Chained st) {e : QueueEvent} (hstep : localClient.step st e = some st') : Chained st' := by
  cases e with
  | operation method =>
    cases hstep
    exact h.operation method
  | transaction =>
    cases hstep
    exact h.transaction
  | react p job => exact h.react hstep
  | answered i outcome => exact h.answered hstep
  | ends i =>
    obtain ⟨c, hc, hstep⟩ := Option.bind_eq_some_iff.1 hstep
    obtain ⟨hgiven, heq⟩ := Option.ite_none_right_eq_some.1 hstep
    cases heq
    have hsound := h.sound i c hc
    exact h.noted hc ⟨hsound.answer_started, fun _ => hgiven, hsound.open_started, hsound.open_failed⟩ rfl .rfl
  | ended i outcome =>
    obtain ⟨c, hc, hstep⟩ := Option.bind_eq_some_iff.1 hstep
    obtain ⟨hending, heq⟩ := Option.ite_none_right_eq_some.1 hstep
    exact h.release hc ((h.sound i c hc).given (.inr hending)) outcome (Option.some.inj heq).symm
  | close i outcome =>
    obtain ⟨c, hc, hstep⟩ := Option.bind_eq_some_iff.1 hstep
    obtain ⟨hgiven, heq⟩ := Option.ite_none_right_eq_some.1 hstep
    exact h.release hc hgiven outcome (Option.some.inj heq).symm
  | databaseEnds i =>
    obtain ⟨c, hc, hstep⟩ := Option.bind_eq_some_iff.1 hstep
    obtain ⟨-, heq⟩ := Option.ite_none_right_eq_some.1 hstep
    cases heq
    have hsound := h.sound i c hc
    have hclosed : ({ c with isOpen := false } : QueuedCall).Sound :=
      ⟨hsound.answer_started, hsound.given, fun hopen => Bool.noConfusion hopen, fun hopen => Bool.noConfusion hopen⟩
    exact h.noted hc hclosed rfl .rfl

theorem chained (h : localClient.Reach System.free st) : Chained st := by
  refine h.invariant ?_ fun _ _ _ _ ih _ hstep => ih.step hstep
  rintro _ rfl
  exact chained_init

/-! ## The queue moves on -/

def QueueJob.weight : QueueJob → Nat
  | .hold _ => 2
  | .start _ | .pass _ => 1

/-- A bound on the jobs to come: what a transaction holds passes the tail on later. -/
def Queue.work (st : Queue) : Nat := (st.promises.reactions.map fun reaction => reaction.2.weight).sum

/-- No job can be taken. -/
def Queue.Idle (st : Queue) : Prop := ∀ p job, st.react p job = none

theorem work_react {p : QueuePromise} {job : QueueJob} (hreact : st.react p job = some st') : st'.work < st.work := by
  obtain ⟨hmem, -, hjob⟩ := react_eq_some hreact
  have hrest := ((List.perm_cons_erase hmem).map fun reaction : QueuePromise × QueueJob => reaction.2.weight).sum_nat
  rw [List.map_cons, List.sum_cons] at hrest
  unfold Queue.work
  obtain ⟨i, c, rfl, -, rfl⟩ | ⟨i, rfl, rfl⟩ | ⟨i, rfl, rfl⟩ := hjob
  · simp only [QueueJob.weight] at hrest ⊢
    omega
  · simp only [Promises.andThen, List.map_append, List.sum_append, List.map_cons, List.map_nil, List.sum_cons,
      List.sum_nil, QueueJob.weight] at hrest ⊢
    omega
  · simp only [Promises.settle_reactions, QueueJob.weight] at hrest ⊢
    omega

/-- A reaction to a settled promise can be taken. -/
theorem Chained.busy (h : Chained st) {p : QueuePromise} {job : QueueJob} (hmem : (p, job) ∈ st.promises.reactions)
    (hp : st.Done p) : st.react p job ≠ none := by
  obtain ⟨outcome, hp⟩ := Option.isSome_iff_exists.1 hp
  have htake := Promises.take_of_mem hmem hp
  unfold Queue.react
  rw [htake]
  cases job with
  | start i =>
    obtain ⟨-, c, hc, -⟩ := (h.start _ _).1 hmem
    simp [hc]
  | hold i => simp
  | pass i => simp

/-- With no job left and all that started finished, every tail is settled. -/
theorem Chained.tails (h : Chained st) (hidle : st.Idle)
    (hfinished : ∀ (i : Nat) (c : QueuedCall), st.calls[i]? = some c → c.started = true → c.Finished)
    (j : Nat) (hj : j ≤ st.calls.length) : st.Done (.tail j) := by
  induction j with
  | zero => exact h.tail_zero
  | succ j ih =>
    have htail := ih (by omega)
    obtain ⟨c, hc⟩ : ∃ c, st.calls[j]? = some c := ⟨_, List.getElem?_eq_getElem hj⟩
    -- its start was a job that could be taken
    have hstarted : c.started = true := by
      by_contra hwaiting
      have hmem := (h.start (.tail j) j).2 ⟨rfl, c, hc, Bool.eq_false_iff.2 hwaiting⟩
      exact h.busy hmem htail (hidle _ _)
    rcases h.waits j hj with hdone | hold | hpass
    · exact hdone
    · exact absurd (hidle _ _) (h.busy hold htail)
    · exact absurd (hidle _ _) (h.busy hpass ((h.turn j).2 ⟨c, hc, hfinished j c hc hstarted⟩))

theorem Chained.all_started (h : Chained st) (hidle : st.Idle)
    (hfinished : ∀ (i : Nat) (c : QueuedCall), st.calls[i]? = some c → c.started = true → c.Finished)
    (hc : st.calls[i]? = some c) : c.started = true := by
  by_contra hwaiting
  have htail := h.tails hidle hfinished i (Nat.le_of_lt (List.getElem?_eq_some_iff.1 hc).1)
  exact h.busy ((h.start _ i).2 ⟨rfl, c, hc, Bool.eq_false_iff.2 hwaiting⟩) htail (hidle _ _)

/-- The client works on a call while a transaction of another is open only when an end of that one has failed. -/
theorem Chained.exclusive (h : Chained st) {j : Nat} {t : QueuedCall} (hc : st.calls[i]? = some c)
    (ht : st.calls[j]? = some t) (hne : i ≠ j) (hrunning : c.Running) (hopen : t.isOpen = true) :
    .rejected ∈ t.ends := by
  have hsound := h.sound j t ht
  obtain ⟨hstarted, hkind, hanswer⟩ := hsound.open_started hopen
  rcases Nat.lt_or_gt_of_ne hne with hlt | hgt
  · -- the transaction would have waited for the call
    obtain ⟨c', hc', hfinished⟩ := (h.turn i).1 (h.finished_before (h.started j t ht hstarted) hlt)
    cases hc.symm.trans hc'
    exact absurd hfinished ((h.sound i c hc).running hrunning)
  · obtain ⟨t', ht', hfinished⟩ := (h.turn j).1 (h.finished_before (h.started i c hc hrunning.1) hgt)
    cases ht.symm.trans ht'
    rw [QueuedCall.Finished, if_pos hkind] at hfinished
    obtain ⟨outcome, rest, hends⟩ := List.exists_cons_of_ne_nil (hfinished.resolve_left hanswer)
    have hmem : outcome ∈ t.ends := hends ▸ List.mem_cons_self ..
    exact hsound.open_failed hopen outcome hmem ▸ hmem

theorem Chained.starts_isPrefix (h : Chained st) : st.starts <+: List.range st.calls.length := by
  refine isPrefix_of_downward h.sorted List.pairwise_lt_range ?_ ?_
  · intro i hi
    obtain ⟨c, hc, -⟩ := (h.mem_starts i).1 hi
    exact List.mem_range.2 (List.getElem?_eq_some_iff.1 hc).1
  · intro i _ j hj hij
    obtain ⟨t, ht, hstarted⟩ := (h.mem_starts j).1 hj
    obtain ⟨c, hc, hfinished⟩ := (h.turn i).1 (h.finished_before (h.started j t ht hstarted) hij)
    exact (h.mem_starts i).2 ⟨c, hc, (h.sound i c hc).finished hfinished⟩

end

/-- An operation that is rejected, a transaction that commits, and an operation behind it. -/
def rejectedThenCommitted : List QueueEvent := [.operation .execute, .transaction, .operation .batch,
  .react (.tail 0) (.start 0), .answered 0 .rejected, .react (.turn 0) (.pass 0), .react (.tail 1) (.hold 1),
  .react (.tail 1) (.start 1), .answered 1 .fulfilled, .ends 1, .ended 1 .fulfilled, .react (.turn 1) (.pass 1),
  .react (.tail 2) (.start 2)]

/-- A commit that fails and leaves the transaction open: the operation behind it starts. -/
def commitFails : List QueueEvent := [.transaction, .react (.tail 0) (.hold 0), .react (.tail 0) (.start 0),
  .answered 0 .fulfilled, .operation .execute, .ends 0, .ended 0 .rejected, .react (.turn 0) (.pass 0),
  .react (.tail 1) (.start 1)]

end Zedspaces.Web.ClientQueue
