/-
What becomes of batches the control plane answers with 413. A refused batch of several entries is put back and the
next one is at most half as long; a refused entry on its own is dropped, and so are the oldest entries when a notice
comes to a full queue. Each drop brings a notice, but a notice on its own is taken. So either there is one entry
less that would be refused alone, or the queue with its pending notice is shorter, or the batch size is smaller
(`Decreases`), and flushing empties the queue whatever else the server refuses (`flushes_empty_queue`).
-/
import Mathlib.Data.Prod.Lex
import Zedspaces.Supervisor.LogBatches

namespace Zedspaces.Supervisor

namespace Batcher

variable {b b' : Batcher} {config : LogShipperConfig} {ts : Nat} {refuses : List LogEntry → Bool}

/-! ## The batch size -/

/-- The batch size is at least 1 and at most `MAX_BATCH_LINES`. -/
def SizeBounded (b : Batcher) : Prop := 1 ≤ b.maxBatch ∧ b.maxBatch ≤ maxBatchLines

theorem SizeBounded.of_eq (h : b.SizeBounded) (heq : b'.maxBatch = b.maxBatch) : b'.SizeBounded := by
  unfold SizeBounded
  rw [heq]
  exact h

theorem SizeBounded.noteSuccess (h : b.SizeBounded) (ceiling : Nat) : (b.noteSuccess ceiling).SizeBounded := by
  obtain ⟨hlow, hhigh⟩ := h
  unfold Batcher.noteSuccess
  dsimp only
  split
  · exact ⟨hlow, hhigh⟩
  · split
    · have hlines : 1 ≤ maxBatchLines := by decide
      constructor
      · show 1 ≤ min (b.maxBatch * 2) (max 1 (min ceiling maxBatchLines))
        omega
      · show min (b.maxBatch * 2) (max 1 (min ceiling maxBatchLines)) ≤ maxBatchLines
        omega
    · exact ⟨hlow, hhigh⟩

theorem SizeBounded.settle (h : b.SizeBounded) (config : LogShipperConfig) {maxBatch : Nat}
    (hmax : maxBatch ≤ max 1 b.maxBatch) (batch : List Queued) (answer : Answer) :
    (b.settle config maxBatch batch answer).1.SizeBounded := by
  cases answer with
  | accepted =>
    have hacked : ({ b with acked := b.acked ++ [batch.map Queued.arrival] } : Batcher).SizeBounded := h
    exact hacked.noteSuccess _
  | tooLarge =>
    unfold Batcher.settle
    dsimp only
    split
    · exact h
    · obtain ⟨hlow, hhigh⟩ := h
      constructor
      · exact Nat.le_max_left _ _
      · show max 1 (maxBatch / 2) ≤ maxBatchLines
        omega
  | failed => exact h

theorem maxLines_le (b : Batcher) (config : LogShipperConfig) : b.maxLines config ≤ max 1 b.maxBatch := by
  unfold maxLines
  omega

theorem SizeBounded.noteDrops (h : b.SizeBounded) (ts : Nat) : (b.noteDrops ts).SizeBounded :=
  h.of_eq (noteDrops_maxBatch b ts)

theorem SizeBounded.flush (h : b.SizeBounded) (config : Option LogShipperConfig) (ts : Nat) (answer : Answer) :
    (b.flush config ts answer).1.SizeBounded := by
  cases config with
  | none => exact h.noteDrops ts
  | some config =>
    by_cases hnil : (b.noteDrops ts).queue = []
    · rw [flush_of_nil hnil]
      exact h.noteDrops ts
    · have hposting : (b.posting config ts).maxBatch = b.maxBatch := noteDrops_maxBatch b ts
      have hmax : b.maxLines config ≤ max 1 (b.posting config ts).maxBatch := hposting ▸ b.maxLines_le config
      rw [flush_eq hnil]
      exact (h.of_eq hposting).settle config hmax _ _

theorem SizeBounded.drain (h : b.SizeBounded) (round : Nat → Option LogShipperConfig × Nat × Answer)
    (remaining : Nat) : (b.drain round remaining).SizeBounded := by
  induction remaining generalizing b with
  | zero => exact h
  | succ remaining ih =>
    rw [Batcher.drain]
    split
    · exact h
    · dsimp only
      split
      · exact h
      · next config hconfig =>
        have hflush := h.flush (some config) (round remaining).2.1 (round remaining).2.2
        split
        · next b' heq => rw [heq] at hflush; exact ih hflush
        · next b' heq => rw [heq] at hflush; exact hflush

theorem SizeBounded.enqueue (h : b.SizeBounded) (entry : LogEntry) (now : Nat) : (b.enqueue entry now).SizeBounded := by
  have hallow : (b.allow entry.source now).1.SizeBounded := by
    refine h.of_eq ?_
    unfold Batcher.allow
    dsimp only
    generalize (if perSourceRate.2 ≤ now - (b.buckets[entry.source]?.getD (now, 0)).1 then (now, 0)
      else b.buckets[entry.source]?.getD (now, 0)) = bucket
    split <;> rfl
  unfold Batcher.enqueue
  split
  · next b' heq => rw [heq] at hallow; exact hallow
  · next b' heq => rw [heq] at hallow; exact hallow

theorem SizeBounded.apply (h : b.SizeBounded) (event : LogEvent) : (event.apply b).SizeBounded := by
  cases event with
  | channelFull => exact h
  | enqueue entry now => exact h.enqueue entry now
  | noteDrops ts => exact h.noteDrops ts
  | flush config ts answer => exact h.flush config ts answer
  | drain round => exact h.drain round _

theorem SizeBounded.run (h : b.SizeBounded) (events : List LogEvent) : (b.run events).SizeBounded := by
  induction events generalizing b with
  | nil => exact h
  | cons event events ih => exact ih (h.apply event)

theorem sizeBounded_start : start.SizeBounded := ⟨by decide, Nat.le_refl _⟩

/-! ## A server that refuses batches -/

/-- The flush of a task whose server refuses some batches and accepts all others. -/
def ship (refuses : List LogEntry → Bool) (b : Batcher) (config : LogShipperConfig) (ts : Nat) : Batcher :=
  (b.flush (some config) ts (if refuses ((b.batch config ts).map Queued.entry) then .tooLarge else .accepted)).1

/-- The task after `n` such flushes; each finds a configuration and a time of its own. -/
def shipped (refuses : List LogEntry → Bool) (b : Batcher) (round : Nat → LogShipperConfig × Nat) : Nat → Batcher
  | 0 => b
  | n + 1 => (b.shipped refuses round n).ship refuses (round n).1 (round n).2

/-- The server takes a batch that holds only a notice. -/
def AcceptsNotices (refuses : List LogEntry → Bool) : Prop := ∀ delta ts, refuses [dropNote delta ts] = false

/-- How many of the entries would be refused alone. -/
def refusable (refuses : List LogEntry → Bool) (queue : List Queued) : Nat := queue.countP fun q => refuses [q.entry]

@[simp] theorem refusable_append (front rest : List Queued) :
    refusable refuses (front ++ rest) = refusable refuses front + refusable refuses rest := List.countP_append

/-- Whether a notice is pending, as a number. -/
def pending (b : Batcher) : Nat := if b.dropped ≤ b.reportedDropped then 0 else 1

theorem length_pendingNotice (b : Batcher) (ts : Nat) : (b.pendingNotice ts).length = b.pending := by
  unfold pendingNotice pending
  split <;> rfl

theorem refusable_pendingNotice (h : AcceptsNotices refuses) : refusable refuses (b.pendingNotice ts) = 0 := by
  unfold pendingNotice
  split
  · rfl
  · have hnotice := h (b.dropped - b.reportedDropped) ts
    simp [refusable, hnotice]

/-- What a flush makes smaller, in this order: the entries that would be refused alone, the queue with the notice
that is still to come, the batch size. -/
def measure (refuses : List LogEntry → Bool) (b : Batcher) : Nat ×ₗ Nat ×ₗ Nat :=
  toLex (refusable refuses b.queue, toLex (b.queue.length + b.pending, b.maxBatch))

/-- From `b` to `b'` the measure goes down. -/
inductive Decreases (refuses : List LogEntry → Bool) (b b' : Batcher) : Prop
  | fewer (h : refusable refuses b'.queue < refusable refuses b.queue)
  | shorter (h : refusable refuses b'.queue ≤ refusable refuses b.queue)
      (h' : b'.queue.length + b'.pending < b.queue.length + b.pending)
  | smaller (h : refusable refuses b'.queue ≤ refusable refuses b.queue)
      (h' : b'.queue.length + b'.pending ≤ b.queue.length + b.pending) (h'' : b'.maxBatch < b.maxBatch)

theorem Decreases.measure_lt (h : Decreases refuses b b') : b'.measure refuses < b.measure refuses := by
  have hlt : ∀ {x y z x' y' z' : Nat}, x' < x ∨ (x' ≤ x ∧ (y' < y ∨ (y' ≤ y ∧ z' < z))) →
      (toLex (x', toLex (y', z')) : Nat ×ₗ Nat ×ₗ Nat) < toLex (x, toLex (y, z)) := by
    intro x y z x' y' z' hxyz
    simp only [Prod.Lex.toLex_lt_toLex]
    omega
  cases h with
  | fewer h => exact hlt (.inl h)
  | shorter h h' => exact hlt (.inr ⟨h, .inl h'⟩)
  | smaller h h' h'' => exact hlt (.inr ⟨h, .inr ⟨h', h''⟩⟩)

/-- The queue of a flush, cut in two. -/
theorem cut_counts (h : AcceptsNotices refuses) (b : Batcher) (config : LogShipperConfig) (ts : Nat) :
    refusable refuses (b.batch config ts) + refusable refuses (b.posting config ts).queue = refusable refuses b.queue ∧
      (b.batch config ts).length + (b.posting config ts).queue.length = b.queue.length + b.pending := by
  have happend := batch_append b config ts
  have hcount := congrArg (refusable refuses) happend
  have hlength := congrArg List.length happend
  rw [refusable_append, refusable_append, refusable_pendingNotice h] at hcount
  rw [List.length_append, List.length_append, length_pendingNotice] at hlength
  exact ⟨hcount, hlength⟩

/-- A flush that takes a batch: nothing is pending after it. -/
theorem decreases_accepted (hnotices : AcceptsNotices refuses) (hqueue : (b.noteDrops ts).queue ≠ []) :
    Decreases refuses b (b.flush (some config) ts .accepted).1 := by
  obtain ⟨hcount, hlength⟩ := cut_counts hnotices b config ts
  have hbatch : 0 < (b.batch config ts).length := List.length_pos_of_ne_nil (batch_ne_nil hqueue)
  have hreported := noteDrops_reported b ts
  rw [flush_eq hqueue]
  have hkept : ∀ b' : Batcher, b'.queue = (b.posting config ts).queue → b'.dropped = (b.noteDrops ts).dropped →
      b'.reportedDropped = (b.noteDrops ts).reportedDropped → Decreases refuses b b' := by
    intro b' hq hd hr
    have hpending : b'.pending = 0 := by
      rw [pending, hd, hr]
      exact if_pos hreported
    refine .shorter ?_ ?_
    · rw [hq]
      omega
    · rw [hq, hpending]
      omega
  show Decreases refuses b (noteSuccess _ _)
  unfold noteSuccess
  dsimp only
  split
  · exact hkept _ rfl rfl rfl
  · split <;> exact hkept _ rfl rfl rfl

/-- A flush whose entry alone is refused drops it. -/
theorem decreases_refused_one (hnotices : AcceptsNotices refuses) (hqueue : (b.noteDrops ts).queue ≠ [])
    (hone : (b.batch config ts).length ≤ 1) (hrefused : refuses ((b.batch config ts).map Queued.entry) = true) :
    Decreases refuses b (b.flush (some config) ts .tooLarge).1 := by
  obtain ⟨hcount, -⟩ := cut_counts hnotices b config ts
  rw [flush_eq hqueue, settle, if_pos hone]
  refine .fewer ?_
  have hentry : 0 < refusable refuses (b.batch config ts) := by
    have hne : b.batch config ts ≠ [] := batch_ne_nil hqueue
    obtain ⟨q, rest, hbatch⟩ := List.exists_cons_of_ne_nil hne
    rw [hbatch, List.length_cons] at hone
    obtain rfl : rest = [] := List.eq_nil_of_length_eq_zero (by omega)
    rw [hbatch] at hrefused ⊢
    refine List.countP_pos_iff.2 ⟨q, List.mem_cons_self, hrefused⟩
  show refusable refuses (b.posting config ts).queue < refusable refuses b.queue
  omega

/-- A flush whose several entries are refused halves the batch size; entries it evicts are made up for by one
notice at most. -/
theorem decreases_refused (haccounted : b.Accounted) (hnotices : AcceptsNotices refuses)
    (hqueue : (b.noteDrops ts).queue ≠ []) (hlong : 1 < (b.batch config ts).length) :
    Decreases refuses b (b.flush (some config) ts .tooLarge).1 := by
  obtain ⟨hcount, hlength⟩ := cut_counts hnotices b config ts
  have hreported := noteDrops_reported b ts
  have hlines : (b.batch config ts).length ≤ b.maxLines config := batch_lines
  have hmax : b.maxLines config ≤ max 1 b.maxBatch := b.maxLines_le config
  rw [flush_eq hqueue, settle, if_neg (Nat.not_le_of_lt hlong)]
  generalize hshrunk : ({ b.posting config ts with successes := 0, maxBatch := max 1 (b.maxLines config / 2) } : Batcher) =
    shrunk
  have hposting := haccounted.posting config ts
  have hshrunkAccounted : shrunk.Accounted := hshrunk ▸ ⟨hposting.bytes, hposting.sizes⟩
  obtain ⟨-, hevicts⟩ := (hshrunkAccounted.refill (b.batch config ts)).trim
  obtain ⟨front, hfront, hdropped⟩ := hevicts.evicted
  have hback : b.batch config ts ++ (b.posting config ts).queue =
      front ++ (shrunk.refill (b.batch config ts)).trim.queue := by
    rw [← hfront, refill_queue haccounted.batch_sizes, ← hshrunk]
  have hcountBack := congrArg (refusable refuses) hback
  have hlengthBack := congrArg List.length hback
  rw [refusable_append, refusable_append] at hcountBack
  rw [List.length_append, List.length_append] at hlengthBack
  -- a notice is pending only if something was evicted
  have hpending : (shrunk.refill (b.batch config ts)).trim.pending ≤ front.length := by
    have hbefore : (shrunk.refill (b.batch config ts)).dropped = (b.noteDrops ts).dropped := by rw [← hshrunk]; rfl
    have hafter : (shrunk.refill (b.batch config ts)).trim.reportedDropped = (b.noteDrops ts).reportedDropped := by
      rw [← hshrunk]; rfl
    rw [pending, hdropped, hbefore, hafter]
    split <;> omega
  refine .smaller ?_ ?_ ?_
  · show refusable refuses (shrunk.refill (b.batch config ts)).trim.queue ≤ _
    omega
  · show (shrunk.refill (b.batch config ts)).trim.queue.length + (shrunk.refill (b.batch config ts)).trim.pending ≤ _
    omega
  · have hsize : (shrunk.refill (b.batch config ts)).trim.maxBatch = max 1 (b.maxLines config / 2) := by
      rw [← hshrunk]; rfl
    show (shrunk.refill (b.batch config ts)).trim.maxBatch < b.maxBatch
    rw [hsize]
    omega

/-! ## Flushing until the queue is empty -/

theorem decreases_ship (haccounted : b.Accounted) (hnotices : AcceptsNotices refuses)
    (hqueue : (b.noteDrops ts).queue ≠ []) : Decreases refuses b (b.ship refuses config ts) := by
  unfold ship
  split
  · next hrefused =>
    by_cases hone : (b.batch config ts).length ≤ 1
    · exact decreases_refused_one hnotices hqueue hone hrefused
    · exact decreases_refused haccounted hnotices hqueue (Nat.lt_of_not_le hone)
  · exact decreases_accepted hnotices hqueue

/-- With nothing queued and nothing pending a flush changes nothing. -/
theorem ship_of_nil (hqueue : (b.noteDrops ts).queue = []) : b.ship refuses config ts = b := by
  rw [ship, flush_of_nil hqueue]
  rw [noteDrops_queue] at hqueue
  have hpending : b.pendingNotice ts = [] := (List.append_eq_nil_iff.1 hqueue).2
  unfold pendingNotice at hpending
  split at hpending
  · next hnone => exact if_pos hnone
  · cases hpending

theorem queue_of_noteDrops_nil (h : (b.noteDrops ts).queue = []) : b.queue = [] := by
  rw [noteDrops_queue] at h
  exact (List.append_eq_nil_iff.1 h).1

/-- A round later is a round of the task after the first. -/
theorem shipped_succ (b : Batcher) (round : Nat → LogShipperConfig × Nat) (n : Nat) :
    b.shipped refuses round (n + 1) =
      (b.ship refuses (round 0).1 (round 0).2).shipped refuses (fun k => round (k + 1)) n := by
  induction n with
  | zero => rfl
  | succ n ih => exact congrArg (fun b : Batcher => b.ship refuses (round (n + 1)).1 (round (n + 1)).2) ih

theorem noteDrops_nil_iff (b : Batcher) (ts ts' : Nat) : (b.noteDrops ts).queue = [] ↔ (b.noteDrops ts').queue = [] := by
  have hpending : b.pendingNotice ts = [] ↔ b.pendingNotice ts' = [] := by
    rw [← List.length_eq_zero_iff, ← List.length_eq_zero_iff, length_pendingNotice, length_pendingNotice]
  rw [noteDrops_queue, noteDrops_queue, List.append_eq_nil_iff, List.append_eq_nil_iff, hpending]

theorem shipped_of_nil (hqueue : (b.noteDrops 0).queue = []) (round : Nat → LogShipperConfig × Nat) (n : Nat) :
    b.shipped refuses round n = b := by
  induction n with
  | zero => rfl
  | succ n ih =>
    rw [shipped, ih]
    exact ship_of_nil ((noteDrops_nil_iff b _ _).1 hqueue)

theorem Accounted.ship (h : b.Accounted) : (b.ship refuses config ts).Accounted := h.flush ..

theorem SizeBounded.ship (h : b.SizeBounded) : (b.ship refuses config ts).SizeBounded := h.flush ..

/-- Flushes empty the queue for good. -/
theorem exists_shipped_nil (hnotices : AcceptsNotices refuses) (b : Batcher) (haccounted : b.Accounted)
    (round : Nat → LogShipperConfig × Nat) : ∃ n, ∀ m, n ≤ m → (b.shipped refuses round m).queue = [] := by
  induction hm : b.measure refuses using WellFoundedLT.induction generalizing b round with
  | ind x ih =>
    subst hm
    by_cases hqueue : (b.noteDrops 0).queue = []
    · refine ⟨0, fun m _ => ?_⟩
      rw [shipped_of_nil hqueue]
      exact queue_of_noteDrops_nil hqueue
    · have hround : (b.noteDrops (round 0).2).queue ≠ [] := fun h => hqueue ((noteDrops_nil_iff b _ _).1 h)
      have hdecreases : Decreases refuses b (b.ship refuses (round 0).1 (round 0).2) :=
        decreases_ship haccounted hnotices hround
      have hless := hdecreases.measure_lt
      obtain ⟨n, hn⟩ := ih _ hless _ haccounted.ship (fun k => round (k + 1)) rfl
      refine ⟨n + 1, fun m hm => ?_⟩
      obtain ⟨m, rfl⟩ : ∃ k, m = k + 1 := ⟨m - 1, by omega⟩
      rw [shipped_succ]
      exact hn m (by omega)

end Batcher

/-- From every reachable state, flushes to a server that refuses batches by any rule, but takes one that holds only
a notice, empty the queue for good, and the batch size stays between 1 and `MAX_BATCH_LINES`. -/
theorem flushes_empty_queue (events : List LogEvent) (refuses : List LogEntry → Bool)
    (hnotices : Batcher.AcceptsNotices refuses) (round : Nat → LogShipperConfig × Nat) :
    (∃ n, ∀ m, n ≤ m → ((Batcher.start.run events).shipped refuses round m).queue = []) ∧
      ∀ n, 1 ≤ ((Batcher.start.run events).shipped refuses round n).maxBatch ∧
        ((Batcher.start.run events).shipped refuses round n).maxBatch ≤ maxBatchLines := by
  refine ⟨Batcher.exists_shipped_nil hnotices _ (Batcher.accounted_start.run events) round, fun n => ?_⟩
  have hbounded : ((Batcher.start.run events).shipped refuses round n).SizeBounded := by
    induction n with
    | zero => exact Batcher.sizeBounded_start.run events
    | succ n ih => exact ih.ship
  exact hbounded

/-- A server that refuses whatever is not a single notice: both lines are dropped, and reported. -/
theorem flushes_empty_queue_refused :
    let line : LogEntry := ⟨0, "info", "server", ['x'], none⟩
    let refuses (entries : List LogEntry) : Bool := !(entries.length == 1 && entries.all fun e => e.level == "warn")
    ∃ n, ∀ m, n ≤ m → ((Batcher.start.run [.enqueue line 0, .enqueue line 0]).shipped refuses
      (fun _ => (⟨200, 262144⟩, 0)) m).queue = [] := by
  intro line refuses
  exact (flushes_empty_queue [.enqueue line 0, .enqueue line 0] refuses (fun _ _ => rfl) fun _ => (⟨200, 262144⟩, 0)).1

end Zedspaces.Supervisor
