/-
The log shipper's batching task (`logs.rs`). Every operation of the task runs alone, so a flush is one step whose
answer comes from outside. Beside the task's own state the model keeps what the code does not: the number of each
accepted entry in order of arrival, the batches that were acknowledged, the entries that were dropped, and how many
lines were refused before they became entries of the queue.
-/
import Zedspaces.Lib.Json
import Zedspaces.Lib.Maps

namespace Zedspaces.Supervisor

open Std Lib

def maxBatchLines : Nat := 200

def maxBatchBytes : Nat := 256 * 1024

def maxQueueLines : Nat := 5000

def maxQueueBytes : Nat := 8 * 1024 * 1024

/-- `PER_SOURCE_RATE`: lines, and the window in nanoseconds. -/
def perSourceRate : Nat × Nat := (200, 1000000000)

def batchRecoverySuccesses : Nat := 20

def batchEnvelopeBytes : Nat := 512

structure LogEntry where
  ts : Nat
  level : String
  source : String
  msg : Text
  fields : Option (List (Text × Json.Value))

/-- `serde_json::to_vec` of an entry. -/
def LogEntry.toVec (entry : LogEntry) : List UInt8 :=
  let fields := match entry.fields with
    | some fields => [("fields".toList, (Json.Value.object fields).render)]
    | none => []
  (Json.object ([("ts".toList, Json.number entry.ts), ("level".toList, Json.string entry.level.toList),
    ("source".toList, Json.string entry.source.toList), ("msg".toList, Json.string entry.msg)] ++ fields)).utf8

/-- The size of an entry inside a batch, with its separator. -/
def entrySize (entry : LogEntry) : Nat := entry.toVec.length + 1

/-- The limits of a `LogShipperConfig`. -/
structure LogShipperConfig where
  maxBatch : Nat
  maxBatchBytes : Nat

/-- An entry of the queue with its size and its number in order of arrival. -/
structure Queued where
  entry : LogEntry
  size : Nat
  arrival : Nat

structure Batcher where
  dropped : Nat
  queue : List Queued
  queueBytes : Nat
  maxBatch : Nat
  successes : Nat
  /-- Per source: window start and lines in it. -/
  buckets : ExtTreeMap String (Nat × Nat)
  reportedDropped : Nat
  /-- How many entries have been accepted. -/
  arrivals : Nat
  /-- The acknowledged batches, in order. -/
  acked : List (List Nat)
  /-- The dropped entries. -/
  lost : List Nat
  /-- How many lines the channel or the rate limit refused. -/
  refused : Nat

namespace Batcher

def start : Batcher := ⟨0, [], 0, maxBatchLines, 0, ∅, 0, 0, [], [], 0⟩

/-! ## The queue -/

/-- Puts an entry at the end of the queue. -/
def push (b : Batcher) (entry : LogEntry) : Batcher :=
  { b with
    queue := b.queue ++ [⟨entry, entrySize entry, b.arrivals⟩]
    queueBytes := b.queueBytes + entrySize entry
    arrivals := b.arrivals + 1 }

/-- Pops entries from the front while the queue is over a ceiling: the popped, the rest and its bytes. -/
def popOver : List Queued → Nat → List Queued × List Queued × Nat
  | [], bytes => ([], [], bytes)
  | q :: rest, bytes =>
    if maxQueueLines < (q :: rest).length ∨ maxQueueBytes < bytes then
      let (popped, kept, bytes) := popOver rest (bytes - q.size)
      (q :: popped, kept, bytes)
    else ([], q :: rest, bytes)

/-- Drops the oldest entries beyond the ceilings. -/
def trim (b : Batcher) : Batcher :=
  let (popped, queue, queueBytes) := popOver b.queue b.queueBytes
  { b with queue, queueBytes, dropped := b.dropped + popped.length, lost := b.lost ++ popped.map Queued.arrival }

/-- The token bucket of the source; `false` when it is empty. -/
def allow (b : Batcher) (source : String) (now : Nat) : Batcher × Bool :=
  let bucket := b.buckets[source]?.getD (now, 0)
  let bucket := if perSourceRate.2 ≤ now - bucket.1 then (now, 0) else bucket
  if perSourceRate.1 ≤ bucket.2 then ({ b with buckets := b.buckets.insert source bucket }, false)
  else ({ b with buckets := b.buckets.insert source (bucket.1, bucket.2 + 1) }, true)

/-- Counts a line that never enters the queue. -/
def refuse (b : Batcher) : Batcher := { b with dropped := b.dropped + 1, refused := b.refused + 1 }

def enqueue (b : Batcher) (entry : LogEntry) (now : Nat) : Batcher :=
  match b.allow entry.source now with
  | (b, false) => b.refuse
  | (b, true) => (b.push entry).trim

/-- The `agent` entry that reports drops. -/
def dropNote (delta ts : Nat) : LogEntry :=
  ⟨ts, "warn", "agent", "dropped ".toList ++ Json.number delta ++ " log lines".toList,
    some [("dropped".toList, .number (Json.number delta))]⟩

def noteDrops (b : Batcher) (ts : Nat) : Batcher :=
  if b.dropped ≤ b.reportedDropped then b
  else ({ b with reportedDropped := b.dropped }).push (dropNote (b.dropped - b.reportedDropped) ts)

/-! ## Batches -/

/-- Takes a batch from the front: at most `maxBatch` entries, and after the first only while they fit `maxBytes`.
`taken` entries of `bytes` are in the batch already; the result is what is added and what stays. -/
def takeBatch (maxBatch maxBytes taken bytes : Nat) : List Queued → List Queued × List Queued
  | [] => ([], [])
  | q :: rest =>
    if taken < maxBatch ∧ (taken = 0 ∨ bytes + q.size ≤ maxBytes) then
      let (batch, rest) := takeBatch maxBatch maxBytes (taken + 1) (bytes + q.size) rest
      (q :: batch, rest)
    else ([], q :: rest)

/-- What the control plane answers to a batch: `200`, `413`, or any other outcome. -/
inductive Answer where
  | accepted
  | tooLarge
  | failed
  deriving DecidableEq, Repr

/-- Grows a halved batch size back towards `ceiling`. -/
def noteSuccess (b : Batcher) (ceiling : Nat) : Batcher :=
  let ceiling := max 1 (min ceiling maxBatchLines)
  if ceiling ≤ b.maxBatch then { b with successes := 0 }
  else if batchRecoverySuccesses ≤ b.successes + 1 then
    { b with successes := 0, maxBatch := min (b.maxBatch * 2) ceiling }
  else { b with successes := b.successes + 1 }

/-- Puts a failed batch back at the head of the queue. -/
def requeue (b : Batcher) (batch : List Queued) : Batcher :=
  let batch := batch.map fun q => { q with size := entrySize q.entry }
  ({ b with queue := batch ++ b.queue, queueBytes := b.queueBytes + (batch.map Queued.size).sum }).trim

/-- What becomes of a batch after the answer; `false` unless it was accepted. -/
def settle (b : Batcher) (config : LogShipperConfig) (maxBatch : Nat) (batch : List Queued) : Answer → Batcher × Bool
  | .accepted => (({ b with acked := b.acked ++ [batch.map Queued.arrival] }).noteSuccess config.maxBatch, true)
  | .tooLarge =>
    -- One entry that will never be taken would pin the head of the queue.
    if batch.length ≤ 1 then
      ({ b with
        successes := 0
        dropped := b.dropped + batch.length
        lost := b.lost ++ batch.map Queued.arrival }, false)
    else (({ b with successes := 0, maxBatch := max 1 (maxBatch / 2) }).requeue batch, false)
  | .failed => (b.requeue batch, false)

/-- Ships at most one batch. -/
def flush (b : Batcher) (config : Option LogShipperConfig) (ts : Nat) (answer : Answer) : Batcher × Bool :=
  let b := b.noteDrops ts
  match config with
  | none => (b, true)
  | some config =>
    if b.queue = [] then (b, true)
    else
      let maxBatch := max 1 (min b.maxBatch config.maxBatch)
      let maxBytes := max 1024 (min config.maxBatchBytes maxBatchBytes)
      let (batch, queue) := takeBatch maxBatch maxBytes 0 batchEnvelopeBytes b.queue
      let queueBytes := b.queueBytes - (batch.map Queued.size).sum
      settle { b with queue, queueBytes } config maxBatch batch answer

/-- Counts the whole queue as dropped. -/
def release (b : Batcher) : Batcher :=
  { b with
    queue := []
    queueBytes := 0
    dropped := b.dropped + b.queue.length
    lost := b.lost ++ b.queue.map Queued.arrival }

/-- The rounds of the final drain; each finds a configuration, a time and an answer of its own. -/
def drain (b : Batcher) (round : Nat → Option LogShipperConfig × Nat × Answer) : Nat → Batcher
  | 0 => b
  | remaining + 1 =>
    if b.queue = [] then b
    else
      let (config, ts, answer) := round remaining
      match config with
      | none => b.release
      | some config => match b.flush config ts answer with
        | (b, true) => b.drain round remaining
        | (b, false) => b

end Batcher

/-- One operation of the task, or a line that its channel had no room for. -/
inductive LogEvent where
  | channelFull
  | enqueue (entry : LogEntry) (now : Nat)
  | noteDrops (ts : Nat)
  | flush (config : Option LogShipperConfig) (ts : Nat) (answer : Batcher.Answer)
  | drain (round : Nat → Option LogShipperConfig × Nat × Batcher.Answer)

def LogEvent.apply (b : Batcher) : LogEvent → Batcher
  | .channelFull => b.refuse
  | .enqueue entry now => b.enqueue entry now
  | .noteDrops ts => b.noteDrops ts
  | .flush config ts answer => (b.flush config ts answer).1
  | .drain round => b.drain round (maxQueueLines + 1)

/-- The shipper after the events of a list in turn. -/
def Batcher.run (b : Batcher) (events : List LogEvent) : Batcher := events.foldl LogEvent.apply b

end Zedspaces.Supervisor
