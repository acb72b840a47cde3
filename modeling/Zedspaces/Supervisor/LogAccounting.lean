/-
The counters of the log queue. The task adjusts `queue_bytes` by hand wherever an entry enters or leaves, at
either end; it is the sum of the sizes of the queue after every operation, so what a pop subtracts is there to
subtract. Enqueueing and requeueing pop from the front until both ceilings hold, and count what they pop
(`queue_accounted`).
-/
import Zedspaces.Supervisor.LogConservation

namespace Zedspaces.Supervisor

open Lib

/-- The bytes of some entries. -/
def totalSize (queue : List Queued) : Nat := (queue.map Queued.size).sum

@[simp] theorem totalSize_nil : totalSize [] = 0 := rfl

@[simp] theorem totalSize_cons (q : Queued) (queue : List Queued) :
    totalSize (q :: queue) = q.size + totalSize queue := List.sum_cons

@[simp] theorem totalSize_append (front rest : List Queued) :
    totalSize (front ++ rest) = totalSize front + totalSize rest := by
  rw [totalSize, List.map_append, List.sum_append]; rfl

namespace Batcher

variable {b b' : Batcher} {queue front rest : List Queued}

/-! ## The parts of a flush -/

/-- The notice that `noteDrops` puts at the end of the queue, if there is something to report. -/
def pendingNotice (b : Batcher) (ts : Nat) : List Queued :=
  if b.dropped ≤ b.reportedDropped then []
  else [⟨dropNote (b.dropped - b.reportedDropped) ts, entrySize (dropNote (b.dropped - b.reportedDropped) ts), b.arrivals⟩]

theorem noteDrops_queue (b : Batcher) (ts : Nat) : (b.noteDrops ts).queue = b.queue ++ b.pendingNotice ts := by
  unfold noteDrops pendingNotice
  split
  · rw [List.append_nil]
  · rfl

theorem noteDrops_dropped (b : Batcher) (ts : Nat) : (b.noteDrops ts).dropped = b.dropped := by
  unfold noteDrops
  split <;> rfl

theorem noteDrops_maxBatch (b : Batcher) (ts : Nat) : (b.noteDrops ts).maxBatch = b.maxBatch := by
  unfold noteDrops
  split <;> rfl

/-- After a notice nothing is left to report. -/
theorem noteDrops_reported (b : Batcher) (ts : Nat) : (b.noteDrops ts).dropped ≤ (b.noteDrops ts).reportedDropped := by
  unfold noteDrops
  split
  · next h => exact h
  · exact Nat.le_refl _

/-- The most entries a flush posts. -/
def maxLines (b : Batcher) (config : LogShipperConfig) : Nat := max 1 (min b.maxBatch config.maxBatch)

/-- The most bytes a flush posts, unless its first entry alone is larger. -/
def maxBytes (config : LogShipperConfig) : Nat := max 1024 (min config.maxBatchBytes maxBatchBytes)

/-- The batch a flush posts, and what stays in the queue. -/
def cut (b : Batcher) (config : LogShipperConfig) (ts : Nat) : List Queued × List Queued :=
  takeBatch (b.maxLines config) (maxBytes config) 0 batchEnvelopeBytes (b.noteDrops ts).queue

/-- The batch a flush posts. -/
def batch (b : Batcher) (config : LogShipperConfig) (ts : Nat) : List Queued := (b.cut config ts).1

/-- The task without the batch, while it is posted. -/
def posting (b : Batcher) (config : LogShipperConfig) (ts : Nat) : Batcher :=
  { b.noteDrops ts with
    queue := (b.cut config ts).2
    queueBytes := (b.noteDrops ts).queueBytes - totalSize (b.batch config ts) }

/-- The batch is back in the queue, before the ceilings are looked at. -/
def refill (b : Batcher) (batch : List Queued) : Batcher :=
  let batch := batch.map fun q => { q with size := entrySize q.entry }
  { b with queue := batch ++ b.queue, queueBytes := b.queueBytes + totalSize batch }

theorem requeue_eq (b : Batcher) (batch : List Queued) : b.requeue batch = (b.refill batch).trim := rfl

theorem flush_of_nil {config : LogShipperConfig} {ts : Nat} (h : (b.noteDrops ts).queue = []) (answer : Answer) :
    b.flush (some config) ts answer = (b.noteDrops ts, true) := by
  rw [flush]
  exact if_pos h

theorem flush_eq {config : LogShipperConfig} {ts : Nat} (h : (b.noteDrops ts).queue ≠ []) (answer : Answer) :
    b.flush (some config) ts answer =
      settle (b.posting config ts) config (b.maxLines config) (b.batch config ts) answer := by
  have hlines : max 1 (min (b.noteDrops ts).maxBatch config.maxBatch) = b.maxLines config := by
    rw [noteDrops_maxBatch]; rfl
  rw [flush]
  dsimp only
  rw [if_neg h, hlines]
  rfl

theorem batch_append (b : Batcher) (config : LogShipperConfig) (ts : Nat) :
    b.batch config ts ++ (b.posting config ts).queue = b.queue ++ b.pendingNotice ts := by
  rw [← noteDrops_queue]
  exact takeBatch_append

/-- A batch is never empty. -/
theorem batch_ne_nil {config : LogShipperConfig} {ts : Nat} (h : (b.noteDrops ts).queue ≠ []) :
    b.batch config ts ≠ [] := by
  obtain ⟨q, rest, hqueue⟩ := List.exists_cons_of_ne_nil h
  have hroom : 0 < b.maxLines config := Nat.lt_of_lt_of_le Nat.one_pos (Nat.le_max_left _ _)
  rw [batch, cut, hqueue, takeBatch, if_pos ⟨hroom, .inl rfl⟩]
  exact List.cons_ne_nil _ _

/-! ## Accounts -/

/-- The counter counts the queue, whose entries carry their sizes. -/
structure Accounted (b : Batcher) : Prop where
  bytes : b.queueBytes = totalSize b.queue
  sizes : ∀ q ∈ b.queue, q.size = entrySize q.entry

theorem accounted_start : start.Accounted := ⟨rfl, by rintro q ⟨⟩⟩

/-- The ceilings hold. -/
structure Within (b : Batcher) : Prop where
  lines : b.queue.length ≤ maxQueueLines
  bytes : b.queueBytes ≤ maxQueueBytes

/-- Whatever is popped from the front, the counter has its bytes. -/
def Unsaturated (b : Batcher) : Prop := ∀ front rest, b.queue = front ++ rest → totalSize front ≤ b.queueBytes

theorem Accounted.unsaturated (h : b.Accounted) : b.Unsaturated := by
  intro front rest hqueue
  rw [h.bytes, hqueue, totalSize_append]
  exact Nat.le_add_right _ _

/-- What popping over the ceilings leaves: the counter counts it, and it is within them. -/
theorem popOver_kept (queue : List Queued) :
    (popOver queue (totalSize queue)).2.2 = totalSize (popOver queue (totalSize queue)).2.1 ∧
      (popOver queue (totalSize queue)).2.1.length ≤ maxQueueLines ∧
      totalSize (popOver queue (totalSize queue)).2.1 ≤ maxQueueBytes := by
  induction queue with
  | nil =>
    refine ⟨rfl, Nat.zero_le _, Nat.zero_le _⟩
  | cons q rest ih =>
    rw [popOver]
    split
    · have hrest : totalSize (q :: rest) - q.size = totalSize rest := by
        rw [totalSize_cons, Nat.add_sub_cancel_left]
      rw [hrest]
      exact ih
    · next hfits =>
      have hlines : ¬ maxQueueLines < (q :: rest).length := fun h => hfits (.inl h)
      have hbytes : ¬ maxQueueBytes < totalSize (q :: rest) := fun h => hfits (.inr h)
      exact ⟨rfl, Nat.le_of_not_lt hlines, Nat.le_of_not_lt hbytes⟩

/-- From `b` to `b'` the oldest entries beyond the ceilings leave the queue, and are counted as dropped. -/
structure Evicts (b b' : Batcher) : Prop where
  unsaturated : b.Unsaturated
  evicted : ∃ front, b.queue = front ++ b'.queue ∧ b'.dropped = b.dropped + front.length
  within : b'.Within

theorem Accounted.trim (h : b.Accounted) : b.trim.Accounted ∧ b.Evicts b.trim := by
  have happend : (popOver b.queue b.queueBytes).1 ++ (popOver b.queue b.queueBytes).2.1 = b.queue := popOver_append
  have hkept := popOver_kept b.queue
  rw [← h.bytes] at hkept
  obtain ⟨hbytes, hlines, hsize⟩ := hkept
  refine ⟨⟨hbytes, fun q hq => h.sizes q ?_⟩, h.unsaturated, ⟨_, happend.symm, rfl⟩, hlines, ?_⟩
  · rw [← happend]
    exact List.mem_append_right _ hq
  · show (popOver b.queue b.queueBytes).2.2 ≤ maxQueueBytes
    rw [hbytes]
    exact hsize

theorem Accounted.push (h : b.Accounted) (entry : LogEntry) : (b.push entry).Accounted where
  bytes := by
    show b.queueBytes + entrySize entry = totalSize (b.queue ++ [_])
    rw [h.bytes, totalSize_append]
    rfl
  sizes q hq := by
    rcases List.mem_append.1 hq with hq | hq
    · exact h.sizes q hq
    · rw [List.mem_singleton.1 hq]

theorem Accounted.allow (h : b.Accounted) (source : String) (now : Nat) : (b.allow source now).1.Accounted := by
  unfold Batcher.allow
  dsimp only
  generalize (if perSourceRate.2 ≤ now - (b.buckets[source]?.getD (now, 0)).1 then (now, 0)
    else b.buckets[source]?.getD (now, 0)) = bucket
  split <;> exact ⟨h.bytes, h.sizes⟩

theorem Accounted.enqueue (h : b.Accounted) (entry : LogEntry) (now : Nat) : (b.enqueue entry now).Accounted := by
  have hallow := h.allow entry.source now
  unfold Batcher.enqueue
  split
  · next b' heq => rw [heq] at hallow; exact ⟨hallow.bytes, hallow.sizes⟩
  · next b' heq => rw [heq] at hallow; exact (hallow.push entry).trim.1

theorem Accounted.noteDrops (h : b.Accounted) (ts : Nat) : (b.noteDrops ts).Accounted := by
  unfold Batcher.noteDrops
  split
  · exact h
  · have hreported : ({ b with reportedDropped := b.dropped } : Batcher).Accounted := ⟨h.bytes, h.sizes⟩
    exact hreported.push _

theorem Accounted.posting (h : b.Accounted) (config : LogShipperConfig) (ts : Nat) :
    (b.posting config ts).Accounted where
  bytes := by
    have hbytes := (h.noteDrops ts).bytes
    have happend := batch_append b config ts
    rw [noteDrops_queue, ← happend, totalSize_append] at hbytes
    show (b.noteDrops ts).queueBytes - totalSize (b.batch config ts) = totalSize (b.posting config ts).queue
    rw [hbytes, Nat.add_sub_cancel_left]
  sizes q hq := by
    refine (h.noteDrops ts).sizes q ?_
    rw [noteDrops_queue, ← batch_append b config ts]
    exact List.mem_append_right _ hq

/-- A batch carries the sizes the queue carried. -/
theorem Accounted.batch_sizes (h : b.Accounted) {config : LogShipperConfig} {ts : Nat} :
    ∀ q ∈ b.batch config ts, q.size = entrySize q.entry := by
  intro q hq
  refine (h.noteDrops ts).sizes q ?_
  rw [noteDrops_queue, ← batch_append b config ts]
  exact List.mem_append_left _ hq

theorem Accounted.refill (h : b.Accounted) (batch : List Queued) : (b.refill batch).Accounted where
  bytes := by
    show b.queueBytes + totalSize _ = totalSize (_ ++ b.queue)
    rw [h.bytes, totalSize_append, Nat.add_comm]
  sizes q hq := by
    rcases List.mem_append.1 hq with hq | hq
    · obtain ⟨q', -, rfl⟩ := List.mem_map.1 hq
      rfl
    · exact h.sizes q hq

/-- A batch that is put back is what it was. -/
theorem refill_queue {batch : List Queued} (h : ∀ q ∈ batch, q.size = entrySize q.entry) :
    (b.refill batch).queue = batch ++ b.queue := by
  have hmap : batch.map (fun q : Queued => { q with size := entrySize q.entry }) = batch := by
    refine (List.map_congr_left fun q hq => ?_).trans (List.map_id batch)
    rw [← h q hq]
    rfl
  show batch.map _ ++ b.queue = batch ++ b.queue
  rw [hmap]

theorem Accounted.settle (h : b.Accounted) (config : LogShipperConfig) (maxBatch : Nat) (batch : List Queued)
    (answer : Answer) : (b.settle config maxBatch batch answer).1.Accounted := by
  cases answer with
  | accepted =>
    show (noteSuccess _ _).Accounted
    unfold noteSuccess
    dsimp only
    split
    · exact ⟨h.bytes, h.sizes⟩
    · split <;> exact ⟨h.bytes, h.sizes⟩
  | tooLarge =>
    unfold Batcher.settle
    dsimp only
    split
    · exact ⟨h.bytes, h.sizes⟩
    · have hshrunk : ({ b with successes := 0, maxBatch := max 1 (maxBatch / 2) } : Batcher).Accounted :=
        ⟨h.bytes, h.sizes⟩
      exact (hshrunk.refill batch).trim.1
  | failed => exact (h.refill batch).trim.1

theorem Accounted.flush (h : b.Accounted) (config : Option LogShipperConfig) (ts : Nat) (answer : Answer) :
    (b.flush config ts answer).1.Accounted := by
  cases config with
  | none => exact h.noteDrops ts
  | some config =>
    by_cases hnil : (b.noteDrops ts).queue = []
    · rw [flush_of_nil hnil]
      exact h.noteDrops ts
    · rw [flush_eq hnil]
      exact (h.posting config ts).settle ..

theorem Accounted.drain (h : b.Accounted) (round : Nat → Option LogShipperConfig × Nat × Answer) (remaining : Nat) :
    (b.drain round remaining).Accounted := by
  induction remaining generalizing b with
  | zero => exact h
  | succ remaining ih =>
    rw [Batcher.drain]
    split
    · exact h
    · dsimp only
      split
      · exact ⟨rfl, by rintro q ⟨⟩⟩
      · next config hconfig =>
        have hflush := h.flush (some config) (round remaining).2.1 (round remaining).2.2
        split
        · next b' heq => rw [heq] at hflush; exact ih hflush
        · next b' heq => rw [heq] at hflush; exact hflush

theorem Accounted.apply (h : b.Accounted) (event : LogEvent) : (event.apply b).Accounted := by
  cases event with
  | channelFull => exact ⟨h.bytes, h.sizes⟩
  | enqueue entry now => exact h.enqueue entry now
  | noteDrops ts => exact h.noteDrops ts
  | flush config ts answer => exact h.flush config ts answer
  | drain round => exact h.drain round _

theorem Accounted.run (h : b.Accounted) (events : List LogEvent) : (b.run events).Accounted := by
  induction events generalizing b with
  | nil => exact h
  | cons event events ih => exact ih (h.apply event)

/-! ## Enqueueing and requeueing -/

/-- The task about to look at the ceilings for an admitted line. -/
def admitted (b : Batcher) (entry : LogEntry) (now : Nat) : Batcher := (b.allow entry.source now).1.push entry

theorem enqueue_of_allow {entry : LogEntry} {now : Nat} (h : (b.allow entry.source now).2 = true) :
    b.enqueue entry now = (b.admitted entry now).trim := by
  unfold enqueue admitted
  split
  · next b' heq => rw [heq] at h; cases h
  · next b' heq => rw [heq]

/-- The flush puts its batch back. -/
def Requeues (b : Batcher) (config : LogShipperConfig) (ts : Nat) (answer : Answer) : Prop :=
  (b.noteDrops ts).queue ≠ [] ∧
    (answer = .failed ∨ (answer = .tooLarge ∧ 1 < (b.batch config ts).length))

theorem flush_of_requeues {config : LogShipperConfig} {ts : Nat} {answer : Answer} (h : b.Requeues config ts answer) :
    ∃ successes maxBatch, (b.flush (some config) ts answer).1 =
      (({ b.posting config ts with successes, maxBatch } : Batcher).refill (b.batch config ts)).trim := by
  obtain ⟨hqueue, rfl | ⟨rfl, hlong⟩⟩ := h
  · rw [flush_eq hqueue]
    exact ⟨_, _, rfl⟩
  · rw [flush_eq hqueue, settle, if_neg (Nat.not_le_of_lt hlong)]
    exact ⟨_, _, rfl⟩

end Batcher

/-- After any events the counter is the sum of the sizes of the queue. A flush takes its batch from a counter that
has it; a line that is admitted, and a batch that is put back, leave the queue within its ceilings, and whatever
they evict the counter had and is counted as dropped. -/
theorem queue_accounted (events : List LogEvent) :
    let b := Batcher.start.run events
    b.queueBytes = totalSize b.queue ∧
      (∀ ts, (b.noteDrops ts).Unsaturated) ∧
      (∀ entry now, (b.allow entry.source now).2 = true → (b.admitted entry now).Evicts (b.enqueue entry now)) ∧
      ∀ config ts answer, b.Requeues config ts answer →
        ((b.posting config ts).refill (b.batch config ts)).Evicts (b.flush (some config) ts answer).1 := by
  intro b
  have h : b.Accounted := Batcher.accounted_start.run events
  refine ⟨h.bytes, fun ts => (h.noteDrops ts).unsaturated, fun entry now hallow => ?_, fun config ts answer hre => ?_⟩
  · rw [Batcher.enqueue_of_allow hallow]
    have hadmitted : (b.admitted entry now).Accounted := (h.allow _ _).push entry
    exact hadmitted.trim.2
  · obtain ⟨successes, maxBatch, heq⟩ := Batcher.flush_of_requeues hre
    have hposting := h.posting config ts
    have hset : ({ b.posting config ts with successes, maxBatch } : Batcher).Accounted := ⟨hposting.bytes, hposting.sizes⟩
    obtain ⟨hunsaturated, hevicted, hwithin⟩ := (hset.refill (b.batch config ts)).trim.2
    rw [heq]
    exact ⟨hunsaturated, hevicted, hwithin⟩

end Zedspaces.Supervisor
