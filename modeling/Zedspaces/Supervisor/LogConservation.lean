/-
What becomes of a log line. The queue is a waiting line: an accepted entry joins at its end, a batch and every
dropped entry leave from its front, and a failed batch goes back where it was. So each accepted entry is at any
moment acknowledged, queued or counted as dropped, and the acknowledged ones are in order (`entries_conserved`).
-/
import Zedspaces.Lib.Ledger
import Zedspaces.Supervisor.Logs

namespace Zedspaces.Supervisor

open Lib

namespace Batcher

variable {b : Batcher} {queue : List Queued} {bytes : Nat}

/-! ## What leaves the front -/

theorem popOver_append : (popOver queue bytes).1 ++ (popOver queue bytes).2.1 = queue := by
  induction queue generalizing bytes with
  | nil => rfl
  | cons q rest ih =>
    rw [popOver]
    split
    · exact congrArg (q :: ·) ih
    · rfl

theorem takeBatch_append {maxBatch maxBytes taken : Nat} :
    (takeBatch maxBatch maxBytes taken bytes queue).1 ++ (takeBatch maxBatch maxBytes taken bytes queue).2 = queue := by
  induction queue generalizing taken bytes with
  | nil => rfl
  | cons q rest ih =>
    rw [takeBatch]
    split
    · exact congrArg (q :: ·) ih
    · rfl

/-! ## The ledger of the batcher -/

/-- Every accepted entry is in one place, and the counter counts the refused lines and the dropped entries. -/
structure Conserved (b : Batcher) : Prop where
  ledger : Ledger b.acked.flatten (b.queue.map Queued.arrival) b.lost b.arrivals
  counted : b.dropped = b.refused + b.lost.length

theorem conserved_start : start.Conserved := ⟨Ledger.empty, rfl⟩

/-- The front of the queue is dropped, and counted. -/
theorem Conserved.lose {front rest : List Queued} (h : b.Conserved) (hqueue : b.queue = front ++ rest)
    (queueBytes : Nat) :
    ({ b with
      queue := rest
      queueBytes
      dropped := b.dropped + front.length
      lost := b.lost ++ front.map Queued.arrival } : Batcher).Conserved where
  ledger := by
    have hledger := h.ledger
    rw [hqueue, List.map_append] at hledger
    exact hledger.lose
  counted := by
    have hcounted := h.counted
    show b.dropped + front.length = b.refused + (b.lost ++ front.map Queued.arrival).length
    rw [List.length_append, List.length_map]
    omega

theorem Conserved.trim (h : b.Conserved) : b.trim.Conserved :=
  h.lose popOver_append.symm _

theorem Conserved.push (h : b.Conserved) (entry : LogEntry) : (b.push entry).Conserved where
  ledger := by
    show Ledger _ ((b.queue ++ [_]).map Queued.arrival) _ _
    rw [List.map_append]
    exact h.ledger.arrive
  counted := h.counted

theorem Conserved.refuse (h : b.Conserved) : b.refuse.Conserved where
  ledger := h.ledger
  counted := by
    have hcounted := h.counted
    show b.dropped + 1 = b.refused + 1 + b.lost.length
    omega

theorem Conserved.allow (h : b.Conserved) (source : String) (now : Nat) : (b.allow source now).1.Conserved := by
  unfold Batcher.allow
  dsimp only
  generalize (if perSourceRate.2 ≤ now - (b.buckets[source]?.getD (now, 0)).1 then (now, 0)
    else b.buckets[source]?.getD (now, 0)) = bucket
  split <;> exact ⟨h.ledger, h.counted⟩

theorem Conserved.enqueue (h : b.Conserved) (entry : LogEntry) (now : Nat) : (b.enqueue entry now).Conserved := by
  have hallow := h.allow entry.source now
  unfold Batcher.enqueue
  split
  · next b' heq => rw [heq] at hallow; exact hallow.refuse
  · next b' heq => rw [heq] at hallow; exact (hallow.push entry).trim

theorem Conserved.noteDrops (h : b.Conserved) (ts : Nat) : (b.noteDrops ts).Conserved := by
  unfold Batcher.noteDrops
  split
  · exact h
  · have hreported : ({ b with reportedDropped := b.dropped } : Batcher).Conserved := ⟨h.ledger, h.counted⟩
    exact hreported.push _

theorem Conserved.requeue {batch : List Queued} {maxBatch successes : Nat} {rest : List Queued} {queueBytes : Nat}
    (h : b.Conserved) (hqueue : b.queue = batch ++ rest) :
    (({ b with queue := rest, queueBytes, maxBatch, successes } : Batcher).requeue batch).Conserved := by
  refine Conserved.trim ⟨?_, h.counted⟩
  have harrivals : (batch.map fun q : Queued => { q with size := entrySize q.entry }).map Queued.arrival =
      batch.map Queued.arrival := by rw [List.map_map]; rfl
  show Ledger b.acked.flatten (((batch.map fun q : Queued => { q with size := entrySize q.entry }) ++ rest).map
    Queued.arrival) b.lost b.arrivals
  rw [List.map_append, harrivals, ← List.map_append, ← hqueue]
  exact h.ledger

theorem Conserved.settle {batch rest : List Queued} {queueBytes maxBatch : Nat} {config : LogShipperConfig}
    (h : b.Conserved) (hqueue : b.queue = batch ++ rest) (answer : Answer) :
    (settle ({ b with queue := rest, queueBytes } : Batcher) config maxBatch batch answer).1.Conserved := by
  cases answer with
  | accepted =>
    have hacked : ({ b with
        queue := rest
        queueBytes
        acked := b.acked ++ [batch.map Queued.arrival] } : Batcher).Conserved := by
      refine ⟨?_, h.counted⟩
      have hledger := h.ledger
      rw [hqueue, List.map_append] at hledger
      show Ledger (b.acked ++ [batch.map Queued.arrival]).flatten _ _ _
      rw [List.flatten_append, List.flatten_singleton]
      exact hledger.deliver
    show (noteSuccess _ _).Conserved
    unfold noteSuccess
    dsimp only
    split
    · exact ⟨hacked.ledger, hacked.counted⟩
    · split <;> exact ⟨hacked.ledger, hacked.counted⟩
  | tooLarge =>
    unfold Batcher.settle
    dsimp only
    split
    · have hlost := h.lose hqueue queueBytes
      exact ⟨hlost.ledger, hlost.counted⟩
    · exact h.requeue hqueue
  | failed => exact h.requeue hqueue

theorem Conserved.flush (h : b.Conserved) (config : Option LogShipperConfig) (ts : Nat) (answer : Answer) :
    (b.flush config ts answer).1.Conserved := by
  have hnoted := h.noteDrops ts
  unfold Batcher.flush
  dsimp only
  split
  · exact hnoted
  · split
    · exact hnoted
    · exact hnoted.settle takeBatch_append.symm answer

theorem Conserved.release (h : b.Conserved) : b.release.Conserved :=
  h.lose (List.append_nil _).symm 0

theorem Conserved.drain (h : b.Conserved) (round : Nat → Option LogShipperConfig × Nat × Answer) (remaining : Nat) :
    (b.drain round remaining).Conserved := by
  induction remaining generalizing b with
  | zero => exact h
  | succ remaining ih =>
    rw [Batcher.drain]
    split
    · exact h
    · dsimp only
      split
      · exact h.release
      · next config hconfig =>
        have hflush := h.flush (some config) (round remaining).2.1 (round remaining).2.2
        split
        · next b' heq => rw [heq] at hflush; exact ih hflush
        · next b' heq => rw [heq] at hflush; exact hflush

theorem Conserved.apply (h : b.Conserved) (event : LogEvent) : (event.apply b).Conserved := by
  cases event with
  | channelFull => exact h.refuse
  | enqueue entry now => exact h.enqueue entry now
  | noteDrops ts => exact h.noteDrops ts
  | flush config ts answer => exact h.flush config ts answer
  | drain round => exact h.drain round _

theorem Conserved.run (h : b.Conserved) (events : List LogEvent) : (b.run events).Conserved := by
  induction events generalizing b with
  | nil => exact h
  | cons event events ih => exact ih (h.apply event)

end Batcher

/-- After any events, each accepted entry is exactly once in an acknowledged batch, in the queue or among the
dropped, which the counter counts; no two acknowledged batches share an entry, and together they follow the order of
arrival. -/
theorem entries_conserved (events : List LogEvent) :
    let b := Batcher.start.run events
    (b.acked.flatten ++ b.queue.map Queued.arrival ++ b.lost).Perm (List.range b.arrivals) ∧
      b.dropped = b.refused + b.lost.length ∧ b.acked.Pairwise List.Disjoint ∧
      b.acked.flatten.Sublist (List.range b.arrivals) := by
  intro b
  have h : b.Conserved := Batcher.conserved_start.run events
  have horder := h.ledger.delivered_sublist
  have hnodup : b.acked.flatten.Nodup := List.nodup_range.sublist horder
  exact ⟨h.ledger.places, h.counted, (List.nodup_flatten.1 hnodup).2, horder⟩

end Zedspaces.Supervisor
