/-
What an outage costs. A flush that fails puts its batch back where it was, but first it puts a notice at the end of
the queue when drops are unreported, and nothing makes room for that notice: the requeue trims the queue from the
front. So a failed flush loses no line exactly when, its leading notices aside, the queue has room for the notice
(`failed_flushes_keep_lines`); in a full queue each failed flush gives a line for a notice, whose eviction is the
next one's notice (`failed_flush_loses_line`).
-/
import Zedspaces.Supervisor.LogAccounting

namespace Zedspaces.Supervisor

open Lib

/-- The numbers of the notices among the entries that the event brings. -/
def LogEvent.notices (b : Batcher) : LogEvent → List Nat
  | .channelFull | .enqueue _ _ => []
  | event => List.range' b.arrivals ((event.apply b).arrivals - b.arrivals)

/-- The numbers of the shipper's own notices. -/
def Batcher.notices (b : Batcher) : List LogEvent → List Nat
  | [] => []
  | event :: events => event.notices b ++ (event.apply b).notices events

/-- The entries that are none of the notices. -/
def realOf (notices : List Nat) (queue : List Queued) : List Queued := queue.filter fun q => decide (q.arrival ∉ notices)

/-- The queued lines after the events. -/
def realLines (events : List LogEvent) : List Queued :=
  realOf (Batcher.start.notices events) (Batcher.start.run events).queue

/-- Flushes whose posts fail. -/
def failedFlushes (flushes : List (LogShipperConfig × Nat)) : List LogEvent :=
  flushes.map fun f => .flush (some f.1) f.2 .failed

/-- Some leading notices aside, the queue and the notice of the next flush are within the ceilings. -/
def Batcher.HasRoom (b : Batcher) (notices : List Nat) (ts : Nat) : Prop :=
  ∃ front rest, b.queue ++ b.pendingNotice ts = front ++ rest ∧
    (∀ q ∈ front, q.arrival ∈ notices ∨ b.arrivals ≤ q.arrival) ∧
    rest.length ≤ maxQueueLines ∧ totalSize rest ≤ maxQueueBytes

namespace Batcher

variable {b : Batcher} {queue front rest : List Queued} {notices : List Nat}

theorem run_append (b : Batcher) (events events' : List LogEvent) : b.run (events ++ events') = (b.run events).run events' :=
  List.foldl_append

theorem notices_append (b : Batcher) (events events' : List LogEvent) :
    b.notices (events ++ events') = b.notices events ++ (b.run events).notices events' := by
  induction events generalizing b with
  | nil => rfl
  | cons event events ih =>
    show event.notices b ++ (event.apply b).notices (events ++ events') = _
    rw [ih, ← List.append_assoc]
    rfl

/-- Popping over the ceilings stops as soon as the rest is within them. -/
theorem popOver_prefix (hlines : rest.length ≤ maxQueueLines) (hbytes : totalSize rest ≤ maxQueueBytes) :
    (popOver (front ++ rest) (totalSize (front ++ rest))).1 <+: front := by
  induction front with
  | nil =>
    refine List.prefix_nil.2 ?_
    cases rest with
    | nil => rfl
    | cons q rest =>
      rw [List.nil_append, popOver, if_neg (not_or.2 ⟨Nat.not_lt_of_le hlines, Nat.not_lt_of_le hbytes⟩)]
  | cons q front ih =>
    rw [List.cons_append, popOver]
    split
    · have hrest : totalSize (q :: (front ++ rest)) - q.size = totalSize (front ++ rest) := by
        rw [totalSize_cons, Nat.add_sub_cancel_left]
      rw [hrest]
      exact (List.prefix_cons_inj q).2 ih
    · exact List.nil_prefix

/-! ## One failed flush -/

theorem noteDrops_arrivals (b : Batcher) (ts : Nat) :
    (b.noteDrops ts).arrivals = b.arrivals + (b.pendingNotice ts).length := by
  unfold noteDrops pendingNotice
  split <;> rfl

theorem failed_arrivals (b : Batcher) (config : LogShipperConfig) (ts : Nat) :
    (b.flush (some config) ts .failed).1.arrivals = b.arrivals + (b.pendingNotice ts).length := by
  rw [← noteDrops_arrivals]
  by_cases hnil : (b.noteDrops ts).queue = []
  · rw [flush_of_nil hnil]
  · rw [flush_eq hnil]
    rfl

/-- A failed flush pops the shortest front of the queue and its notice that leaves the rest within the ceilings. -/
theorem Accounted.failed (h : b.Accounted) (config : LogShipperConfig) (ts : Nat) :
    ∃ popped, b.queue ++ b.pendingNotice ts = popped ++ (b.flush (some config) ts .failed).1.queue ∧
      (b.flush (some config) ts .failed).1.queue.length ≤ maxQueueLines ∧
      totalSize (b.flush (some config) ts .failed).1.queue ≤ maxQueueBytes ∧
      ∀ front rest, b.queue ++ b.pendingNotice ts = front ++ rest → rest.length ≤ maxQueueLines →
        totalSize rest ≤ maxQueueBytes → popped <+: front := by
  by_cases hnil : (b.noteDrops ts).queue = []
  · rw [flush_of_nil hnil, ← noteDrops_queue, hnil]
    refine ⟨[], rfl, Nat.zero_le _, Nat.zero_le _, ?_⟩
    intro front rest _ _ _
    exact List.nil_prefix
  · have hposting := h.posting config ts
    have hqueue : ((b.posting config ts).refill (b.batch config ts)).queue = b.queue ++ b.pendingNotice ts := by
      rw [refill_queue h.batch_sizes, batch_append]
    have hbytes := (hposting.refill (b.batch config ts)).bytes
    have hpopped : (popOver (b.queue ++ b.pendingNotice ts) (totalSize (b.queue ++ b.pendingNotice ts))) =
        popOver ((b.posting config ts).refill (b.batch config ts)).queue
          ((b.posting config ts).refill (b.batch config ts)).queueBytes := by
      rw [hbytes, hqueue]
    have hflush : (b.flush (some config) ts .failed).1.queue =
        (popOver (b.queue ++ b.pendingNotice ts) (totalSize (b.queue ++ b.pendingNotice ts))).2.1 := by
      rw [flush_eq hnil, hpopped]
      rfl
    obtain ⟨-, hlines, hsize⟩ := popOver_kept (b.queue ++ b.pendingNotice ts)
    rw [hflush]
    refine ⟨_, popOver_append.symm, hlines, hsize, ?_⟩
    intro front rest heq hl hb
    rw [heq]
    exact popOver_prefix hl hb

end Batcher

/-! ## What is a line -/

@[simp] theorem realOf_append (notices : List Nat) (front rest : List Queued) :
    realOf notices (front ++ rest) = realOf notices front ++ realOf notices rest := List.filter_append ..

theorem realOf_eq_nil {notices : List Nat} {queue : List Queued} :
    realOf notices queue = [] ↔ ∀ q ∈ queue, q.arrival ∈ notices := by
  simp [realOf, List.filter_eq_nil_iff]

section

variable (events : List LogEvent) (config : LogShipperConfig) (ts : Nat)

/-- The notice of a failed flush has the next number. -/
theorem notices_failed : Batcher.start.notices (events ++ failedFlushes [(config, ts)]) =
    Batcher.start.notices events ++
      List.range' (Batcher.start.run events).arrivals ((Batcher.start.run events).pendingNotice ts).length := by
  rw [Batcher.notices_append]
  show _ ++ (List.range' _ (((Batcher.start.run events).flush (some config) ts .failed).1.arrivals - _) ++ []) = _
  rw [Batcher.failed_arrivals, Nat.add_sub_cancel_left, List.append_nil]

theorem lt_arrivals {q : Queued} (hq : q ∈ (Batcher.start.run events).queue) :
    q.arrival < (Batcher.start.run events).arrivals := by
  have h := (Batcher.conserved_start.run events).ledger
  exact h.lt (List.mem_append_right _ (List.mem_map_of_mem hq))

/-- The pending notice is no line, and a queued line is not it. -/
theorem realOf_pending : realOf (Batcher.start.notices (events ++ failedFlushes [(config, ts)]))
      ((Batcher.start.run events).queue ++ (Batcher.start.run events).pendingNotice ts) = realLines events := by
  have hpending : realOf (Batcher.start.notices (events ++ failedFlushes [(config, ts)]))
      ((Batcher.start.run events).pendingNotice ts) = [] := by
    rw [realOf_eq_nil, notices_failed]
    intro q hq
    refine List.mem_append_right _ (List.mem_range'_1.2 ?_)
    unfold Batcher.pendingNotice at hq ⊢
    split at hq
    · cases hq
    · next hdrops =>
      rw [if_neg hdrops, List.mem_singleton.1 hq]
      exact ⟨Nat.le_refl _, Nat.lt_succ_self _⟩
  rw [realOf_append, hpending, List.append_nil]
  refine List.filter_congr fun q hq => ?_
  have hlt := lt_arrivals events hq
  rw [notices_failed]
  simp only [List.mem_append, List.mem_range'_1, decide_eq_decide]
  constructor
  · exact fun h hn => h (.inl hn)
  · rintro h (hn | ⟨hle, -⟩)
    · exact h hn
    · exact absurd hlt (Nat.not_lt_of_le hle)

/-- What a failed flush pops was at the front of the lines. -/
theorem realLines_failed : ∃ popped,
    (Batcher.start.run events).queue ++ (Batcher.start.run events).pendingNotice ts =
      popped ++ (Batcher.start.run (events ++ failedFlushes [(config, ts)])).queue ∧
    realOf (Batcher.start.notices (events ++ failedFlushes [(config, ts)])) popped ++
      realLines (events ++ failedFlushes [(config, ts)]) = realLines events ∧
    (realLines (events ++ failedFlushes [(config, ts)]) = realLines events ↔
      (Batcher.start.run events).HasRoom (Batcher.start.notices events) ts) := by
  have hrun : Batcher.start.run (events ++ failedFlushes [(config, ts)]) =
      ((Batcher.start.run events).flush (some config) ts .failed).1 := Batcher.run_append ..
  have haccounted := Batcher.accounted_start.run events
  obtain ⟨popped, hsplit, hlines, hsize, hshortest⟩ := haccounted.failed config ts
  rw [← hrun] at hsplit hlines hsize
  have hreal : realOf (Batcher.start.notices (events ++ failedFlushes [(config, ts)])) popped ++
      realLines (events ++ failedFlushes [(config, ts)]) = realLines events := by
    rw [← realOf_pending events config ts, hsplit, realOf_append]
    rfl
  refine ⟨popped, hsplit, hreal, ?_⟩
  have hnone : realLines (events ++ failedFlushes [(config, ts)]) = realLines events ↔
      realOf (Batcher.start.notices (events ++ failedFlushes [(config, ts)])) popped = [] := by
    constructor
    · intro h
      rw [h] at hreal
      exact List.append_left_eq_self.1 hreal
    · intro h
      rw [h, List.nil_append] at hreal
      exact hreal
  rw [hnone, realOf_eq_nil, notices_failed]
  constructor
  · intro hpopped
    refine ⟨popped, _, hsplit, fun q hq => ?_, hlines, hsize⟩
    rcases List.mem_append.1 (hpopped q hq) with hn | hn
    · exact .inl hn
    · exact .inr (List.mem_range'_1.1 hn).1
  · rintro ⟨front, rest, heq, hfront, hl, hb⟩ q hq
    have hmem : q ∈ front := (hshortest front rest heq hl hb).subset hq
    rcases hfront q hmem with hn | hle
    · exact List.mem_append_left _ hn
    · -- an entry of the queue has a smaller number, so this is the notice
      have hboth : q ∈ (Batcher.start.run events).queue ++ (Batcher.start.run events).pendingNotice ts := by
        rw [heq]
        exact List.mem_append_left _ hmem
      rcases List.mem_append.1 hboth with hqueue | hpending
      · exact absurd (lt_arrivals events hqueue) (Nat.not_lt_of_le hle)
      · refine List.mem_append_right _ (List.mem_range'_1.2 ⟨hle, ?_⟩)
        unfold Batcher.pendingNotice at hpending ⊢
        split at hpending
        · cases hpending
        · next hdrops =>
          rw [if_neg hdrops, List.mem_singleton.1 hpending]
          exact Nat.lt_succ_self _

end

/-! ## An outage -/

theorem failedFlushes_nil (events : List LogEvent) : events ++ failedFlushes [] = events := List.append_nil events

theorem failedFlushes_cons (f : LogShipperConfig × Nat) (flushes : List (LogShipperConfig × Nat)) (events : List LogEvent) :
    events ++ failedFlushes (f :: flushes) = (events ++ failedFlushes [f]) ++ failedFlushes flushes :=
  (List.append_assoc events (failedFlushes [f]) (failedFlushes flushes)).symm

/-- An outage loses the oldest lines, if any. -/
theorem realLines_suffix (events : List LogEvent) (flushes : List (LogShipperConfig × Nat)) :
    realLines (events ++ failedFlushes flushes) <:+ realLines events := by
  induction flushes generalizing events with
  | nil => exact ⟨[], congrArg realLines (failedFlushes_nil events)⟩
  | cons f flushes ih =>
    obtain ⟨popped, -, hreal, -⟩ := realLines_failed events f.1 f.2
    rw [failedFlushes_cons]
    exact (ih (events ++ failedFlushes [f])).trans ⟨_, hreal⟩

/-- An outage loses no line, and keeps the lines in order, exactly if at each of its flushes the queue, some leading
notices aside, has room for the notice. -/
theorem failed_flushes_keep_lines (events : List LogEvent) (flushes : List (LogShipperConfig × Nat)) :
    realLines (events ++ failedFlushes flushes) = realLines events ↔
      ∀ n f, flushes[n]? = some f →
        (Batcher.start.run (events ++ failedFlushes (flushes.take n))).HasRoom
          (Batcher.start.notices (events ++ failedFlushes (flushes.take n))) f.2 := by
  induction flushes generalizing events with
  | nil =>
    rw [failedFlushes_nil]
    refine ⟨fun _ n f hf => ?_, fun _ => rfl⟩
    simp at hf
  | cons f flushes ih =>
    obtain ⟨-, -, -, hstep⟩ := realLines_failed events f.1 f.2
    rw [failedFlushes_cons]
    constructor
    · intro h
      -- the lines only become fewer, so the first flush kept them too
      have hlast := realLines_suffix (events ++ failedFlushes [f]) flushes
      have hfirst := realLines_suffix events [f]
      rw [h] at hlast
      have hkept : realLines (events ++ failedFlushes [f]) = realLines events :=
        hfirst.eq_of_length_le hlast.length_le
      intro n f' hf'
      cases n with
      | zero =>
        obtain rfl : f = f' := Option.some.inj hf'
        rw [List.take_zero, failedFlushes_nil]
        exact hstep.1 hkept
      | succ n =>
        rw [List.take_succ_cons, failedFlushes_cons]
        exact (ih _).1 (h.trans hkept.symm) n f' hf'
    · intro h
      have hzero := h 0 f rfl
      rw [List.take_zero, failedFlushes_nil] at hzero
      refine ((ih _).2 fun n f' hf' => ?_).trans (hstep.2 hzero)
      have hsucc := h (n + 1) f' hf'
      rw [List.take_succ_cons, failedFlushes_cons] at hsucc
      exact hsucc

/-! ## A full queue -/

theorem Batcher.trim_of_within {b : Batcher} (h : b.Within) : b.trim = b := by
  have hpop : popOver b.queue b.queueBytes = ([], b.queue, b.queueBytes) := by
    obtain ⟨hlines, hbytes⟩ := h
    generalize b.queue = queue at hlines ⊢
    cases queue with
    | nil => rfl
    | cons q rest => rw [popOver, if_neg (not_or.2 ⟨Nat.not_lt_of_le hlines, Nat.not_lt_of_le hbytes⟩)]
  rw [trim, hpop]
  simp

/-- A line of the server. -/
def serverLine : LogEntry := ⟨0, "info", "server", ['x'], none⟩

/-- Lines of the server at the given times. -/
def serverLines (times : List Nat) : List LogEvent := times.map fun now => .enqueue serverLine now

/-- `n` times, `window` apart. -/
def ticks (window n : Nat) : List Nat := (List.range n).map fun i => i * window

theorem notices_serverLines (b : Batcher) (times : List Nat) : b.notices (serverLines times) = [] := by
  induction times generalizing b with
  | nil => rfl
  | cons now times ih => exact ih _

/-- What `n` lines leave: all of them queued, nothing dropped, and a bucket whose window is over at `now`. -/
structure Batcher.Filled (b : Batcher) (n now : Nat) : Prop where
  length : b.queue.length = n
  bytes : b.queueBytes = n * entrySize serverLine
  dropped : b.dropped = 0
  reported : b.reportedDropped = 0
  bucket : ∀ x, b.buckets["server"]? = some x → x.1 + perSourceRate.2 ≤ now

theorem Batcher.Filled.allow {b : Batcher} {n now : Nat} (h : b.Filled n now) :
    b.allow "server" now = ({ b with buckets := b.buckets.insert "server" (now, 1) }, true) := by
  have hlimit : ¬ perSourceRate.1 ≤ 0 := by decide
  have hbucket : (if perSourceRate.2 ≤ now - (b.buckets["server"]?.getD (now, 0)).1 then (now, 0)
      else b.buckets["server"]?.getD (now, 0)) = (now, 0) := by
    split
    · rfl
    · next hrecent =>
      cases hx : b.buckets["server"]? with
      | none => rfl
      | some x =>
        have hold := h.bucket x hx
        rw [hx, Option.getD_some] at hrecent
        omega
  unfold Batcher.allow
  dsimp only
  rw [hbucket, if_neg hlimit]

theorem Batcher.Filled.enqueue {b : Batcher} {n now later : Nat} (h : b.Filled n now) (hlines : n + 1 ≤ maxQueueLines)
    (hbytes : (n + 1) * entrySize serverLine ≤ maxQueueBytes) (hlater : now + perSourceRate.2 ≤ later) :
    (b.enqueue serverLine now).Filled (n + 1) later := by
  have hallow : b.allow serverLine.source now = _ := h.allow
  have hlength : (b.queue ++ [(⟨serverLine, entrySize serverLine, b.arrivals⟩ : Queued)]).length = n + 1 := by
    rw [List.length_append, h.length]; rfl
  have htotal : b.queueBytes + entrySize serverLine = (n + 1) * entrySize serverLine := by
    rw [h.bytes, Nat.succ_mul]
  have henqueue : b.enqueue serverLine now =
      ({ b with buckets := b.buckets.insert "server" (now, 1) } : Batcher).push serverLine := by
    unfold Batcher.enqueue
    rw [hallow]
    refine trim_of_within ⟨?_, ?_⟩
    · exact hlength.trans_le hlines
    · exact htotal.trans_le hbytes
  rw [henqueue]
  refine ⟨hlength, htotal, h.dropped, h.reported, ?_⟩
  intro x hx
  have hinsert : (b.buckets.insert "server" (now, 1))["server"]? = some x := hx
  rw [Std.ExtTreeMap.getElem?_insert_self] at hinsert
  obtain rfl := Option.some.inj hinsert
  exact hlater

theorem filled_ticks {window : Nat} (hwindow : perSourceRate.2 ≤ window) {n : Nat} (hlines : n ≤ maxQueueLines)
    (hbytes : n * entrySize serverLine ≤ maxQueueBytes) :
    (Batcher.start.run (serverLines (ticks window n))).Filled n (n * window) := by
  induction n with
  | zero =>
    refine ⟨rfl, (Nat.zero_mul _).symm, rfl, rfl, ?_⟩
    intro x hx
    have hempty : Batcher.start.buckets["server"]? = none := Std.ExtTreeMap.getElem?_empty
    exact nomatch hempty.symm.trans hx
  | succ n ih =>
    have hsteps : serverLines (ticks window (n + 1)) =
        serverLines (ticks window n) ++ [.enqueue serverLine (n * window)] := by
      rw [serverLines, ticks, List.range_succ, List.map_append, List.map_append]
      rfl
    have hfewer : n * entrySize serverLine ≤ maxQueueBytes := (Nat.mul_le_mul_right _ (Nat.le_succ n)).trans hbytes
    have hlater : n * window + perSourceRate.2 ≤ (n + 1) * window := by
      rw [Nat.succ_mul]
      exact Nat.add_le_add_left hwindow _
    rw [hsteps, Batcher.run_append]
    exact (ih (Nat.le_of_succ_le hlines) hfewer).enqueue hlines hbytes hlater

/-- A queue of lines is full and a drop is unreported: a failed flush loses a line. -/
theorem failed_flush_of_full {events : List LogEvent} (hlines : Batcher.start.notices events = [])
    (hfull : maxQueueLines ≤ (Batcher.start.run events).queue.length)
    (hdrops : ¬ (Batcher.start.run events).dropped ≤ (Batcher.start.run events).reportedDropped)
    (f : LogShipperConfig × Nat) : realLines (events ++ failedFlushes [f]) ≠ realLines events := by
  intro h
  obtain ⟨-, -, -, hroom⟩ := realLines_failed events f.1 f.2
  obtain ⟨front, rest, hsplit, hfront, hrest, -⟩ := hroom.1 h
  have hpending : ((Batcher.start.run events).pendingNotice f.2).length = 1 := by
    rw [Batcher.pendingNotice, if_neg hdrops]
    rfl
  have hlength := congrArg List.length hsplit
  rw [List.length_append, List.length_append, hpending] at hlength
  -- so something is before the rest, and the first entry of the queue is a line
  cases hqueue : (Batcher.start.run events).queue with
  | nil =>
    rw [hqueue] at hfull
    exact absurd hfull (by decide)
  | cons q queue =>
    cases front with
    | nil =>
      rw [List.length_nil] at hlength
      omega
    | cons q' front =>
      rw [hqueue] at hsplit
      obtain ⟨rfl, -⟩ := List.cons_eq_cons.1 hsplit
      have hlt := lt_arrivals events (hqueue ▸ List.mem_cons_self)
      rcases hfront q List.mem_cons_self with hn | hle
      · rw [hlines] at hn
        cases hn
      · exact Nat.not_lt_of_le hle hlt


theorem failed_flush_of_filled {events : List LogEvent} {n now : Nat} (hlines : Batcher.start.notices events = [])
    (hfilled : (Batcher.start.run events).Filled n now) (hn : maxQueueLines ≤ n) (f : LogShipperConfig × Nat) :
    realLines (events ++ [.channelFull] ++ failedFlushes [f]) ≠ realLines (events ++ [.channelFull]) := by
  have hrun : Batcher.start.run (events ++ [.channelFull]) = (Batcher.start.run events).refuse := Batcher.run_append ..
  refine failed_flush_of_full ?_ ?_ ?_ f
  · rw [Batcher.notices_append, hlines]
    rfl
  · rw [hrun]
    exact hn.trans (Nat.le_of_eq hfilled.length.symm)
  · rw [hrun, Batcher.refuse, hfilled.dropped, hfilled.reported]
    exact Nat.not_succ_le_zero 0

/-- With a full queue and one line refused, a failed flush loses the oldest line. -/
theorem failed_flush_loses_line : ¬ ∀ (events : List LogEvent) (flushes : List (LogShipperConfig × Nat)),
    realLines (events ++ failedFlushes flushes) = realLines events := by
  intro h
  obtain ⟨n, hn⟩ : ∃ n, n = maxQueueLines := ⟨_, rfl⟩
  have hbytes : n * entrySize serverLine ≤ maxQueueBytes := by
    rw [hn]
    decide
  have hfilled := filled_ticks (Nat.le_refl _) (Nat.le_of_eq hn) hbytes
  have hlines := notices_serverLines .start (ticks perSourceRate.2 n)
  exact failed_flush_of_filled hlines hfilled (Nat.le_of_eq hn.symm) (⟨200, 262144⟩, 0) (h _ _)
end Zedspaces.Supervisor
