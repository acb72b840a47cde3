/-
What becomes of the local backend's record over any interleaving. The record as a value by itself is changed by updates
that each take what the one before left, and a session is opened only while none runs (`RecordUpdate.apply`); `Kept` says
that the file is what the updates written so far come to, so that none was overwritten by a copy read before it, and
that a session is opened once, with its `onResume`, between one stop and the next.

Every turn of a call reads the record it writes, but for the last of a `create` or a `get` that resumes: it writes back
the copy it read before its wait. So a run keeps the record throughout exactly when each of these comes back in time
(`local_record`), to a record that is as it was read where a new session does not set it, and does not run. Two resumes
of a stopped sandbox do not, and neither does one that meets the exit of a command (`stale_copies_written`).
-/
import Zedspaces.Lib.Updates
import Zedspaces.Web.LocalSandbox

namespace Zedspaces.Web

open Lib Lifecycle

/-! ## The record by itself -/

/-- What an update makes of the record. A sandbox is created once, and a session is opened when none runs. -/
def RecordUpdate.apply : RecordUpdate → Option LocalSandboxRecord → Option (Option LocalSandboxRecord)
  | .created record, none => some (some record)
  | .started _ now, some record => if record.status = .running then none else some (some (record.startSession now))
  | .edited edit, some record => some (some (edit.on record))
  | .deleted, _ => some none
  | _, _ => none

def runs (record : Option LocalSandboxRecord) : Bool := record.any fun record => record.status = .running

namespace LocalEffect

def update? : LocalEffect → Option RecordUpdate
  | .wrote update => some update
  | .onResume => none

/-- The sandbox runs no more. -/
def closes : LocalEffect → Bool
  | .wrote (.edited .stopping) | .wrote (.edited .stopped) | .wrote .deleted => true
  | _ => false

def opens : LocalEffect → Bool
  | .wrote (.created _) | .wrote (.started _ _) => true
  | _ => false

/-- A session is opened by a `get` with an `onResume`. -/
def owes : LocalEffect → Bool
  | .wrote (.started callback _) => callback
  | _ => false

def isOnResume : LocalEffect → Bool
  | .onResume => true
  | _ => false

end LocalEffect

open LocalEffect

/-- The updates written so far. -/
def LocalWorld.updates (w : LocalWorld) : List RecordUpdate := w.log.filterMap update?

/-- Nothing written was lost on the way from `r₀`, and one session is open while the sandbox runs, whose `onResume` was
run once. -/
structure Kept (r₀ : Option LocalSandboxRecord) (w : LocalWorld) : Prop where
  replay : replay RecordUpdate.apply r₀ w.updates = some w.record
  sessions : since closes opens (if runs r₀ then 1 else 0) w.log = if runs w.record then 1 else 0
  onResume : since closes isOnResume 0 w.log = since closes owes 0 w.log
  once : since closes isOnResume 0 w.log ≤ if runs w.record then 1 else 0

def LocalAnswer.isRestored : LocalAnswer → Bool
  | .restored _ => true
  | _ => false

def LocalAnswer.isAllocated : LocalAnswer → Bool
  | .allocated _ _ _ => true
  | _ => false

/-- The records differ at most in what a new session sets. -/
def LocalSandboxRecord.Agrees (copy record : LocalSandboxRecord) : Prop :=
  { copy with
    status := record.status
    startedAt := record.startedAt
    expiresAt := record.expiresAt
    sessionId := record.sessionId } = record

instance (copy record : LocalSandboxRecord) : Decidable (copy.Agrees record) := inferInstanceAs (Decidable (_ = _))

/-- A session may be opened on the copy: the sandbox is there, still not running, and as it was read. -/
def LocalSandboxRecord.UpToDate (copy : LocalSandboxRecord) (record : Option LocalSandboxRecord) : Prop :=
  ∃ current ∈ record, current.status ≠ .running ∧ copy.Agrees current

instance (copy : LocalSandboxRecord) (record : Option LocalSandboxRecord) : Decidable (copy.UpToDate record) :=
  inferInstanceAs (Decidable (∃ current ∈ record, current.status ≠ .running ∧ copy.Agrees current))

/-- The call does not come back to write a copy of a record that has changed meanwhile, or a new record where there is
one. -/
def LocalCall.InTime (record : Option LocalSandboxRecord) : LocalCall → LocalAnswer → Prop
  | .resuming copy _, answer => answer.isRestored = true → copy.UpToDate record
  | .allocating _, answer => answer.isAllocated = true → record = none
  | _, _ => True

instance (record : Option LocalSandboxRecord) : ∀ (call : LocalCall) (answer : LocalAnswer),
    Decidable (call.InTime record answer)
  | .resuming copy _, answer => inferInstanceAs (Decidable (answer.isRestored = true → copy.UpToDate record))
  | .allocating _, answer => inferInstanceAs (Decidable (answer.isAllocated = true → record = none))
  | .done, _ | .terminating _, _ | .snapshotting _, _ | .stopping, _ | .deleting, _ | .waiting _, _ =>
    inferInstanceAs (Decidable True)

/-- The condition on a step of the process. -/
def InTime (s : Table LocalWorld LocalCall) : Event LocalInput LocalAnswer ChildEvent → Prop
  | .act n answer => ∀ call, s.procs n = some call → call.InTime s.world.record answer
  | _ => True

instance (s : Table LocalWorld LocalCall) : ∀ e : Event LocalInput LocalAnswer ChildEvent, Decidable (InTime s e)
  | .act n answer => inferInstanceAs (Decidable (∀ call, s.procs n = some call → call.InTime s.world.record answer))
  | .arrive _ _ | .halt _ | .env _ => inferInstanceAs (Decidable True)

variable {r₀ : Option LocalSandboxRecord} {w w' : LocalWorld} {record copy : LocalSandboxRecord}

theorem startSession_eq_iff {now : Int} : copy.startSession now = record.startSession now ↔ copy.Agrees record := by
  obtain ⟨name, portMap, internal, status, startedAt, expiresAt, sessionId, sessionSeq, timeoutMs, keep, snapshotIds,
    commands, cmdSeq⟩ := copy
  cases record
  simp only [LocalSandboxRecord.startSession, LocalSandboxRecord.Agrees, LocalSandboxRecord.mk.injEq]
  constructor
  · rintro ⟨hname, hmap, hinternal, -, -, -, -, hseq, htimeout, hkeep, hids, hcommands, hcmd⟩
    exact ⟨hname, hmap, hinternal, trivial, trivial, trivial, trivial, Nat.succ.inj hseq, htimeout, hkeep, hids,
      hcommands, hcmd⟩
  · rintro ⟨rfl, rfl, rfl, -, -, -, -, rfl, rfl, rfl, rfl, rfl, rfl⟩
    exact ⟨rfl, rfl, rfl, trivial, trivial, rfl, rfl, rfl, rfl, rfl, rfl, rfl, rfl⟩

/-- Only a stop takes the status away. -/
theorem RecordEdit.status (edit : RecordEdit) (record : LocalSandboxRecord) : (edit.on record).status =
    if edit = .stopping then .stopping else if edit = .stopped then .stopped else record.status := by
  cases edit <;> rfl

/-! ## What a step writes -/

theorem Kept.start (h : w.Fresh) : Kept w.record w := by
  obtain ⟨-, -, hlog⟩ := h
  refine ⟨?_, ?_, ?_, ?_⟩
  · rw [LocalWorld.updates, hlog]
    rfl
  · rw [hlog]
    rfl
  · rw [hlog]
    rfl
  · rw [hlog]
    exact Nat.zero_le _

/-- The children do not matter. -/
theorem Kept.same (h : Kept r₀ w) (hrecord : w'.record = w.record) (hlog : w'.log = w.log) : Kept r₀ w' := by
  refine ⟨?_, ?_, ?_, ?_⟩
  · rw [LocalWorld.updates, hlog, hrecord]
    exact h.replay
  · rw [hlog, hrecord]
    exact h.sessions
  · rw [hlog]
    exact h.onResume
  · rw [hlog, hrecord]
    exact h.once

theorem updates_writeRecord (update : RecordUpdate) :
    (w.writeRecord record update).updates = w.updates ++ [update] := by
  simp [LocalWorld.updates, LocalWorld.writeRecord, update?]

/-- One update more, which an `onResume` does not go with. -/
theorem Kept.concat (h : Kept r₀ w) {update : RecordUpdate} (hlog : w'.log = w.log ++ [.wrote update])
    (hreplay : RecordUpdate.apply update w.record = some w'.record) (howes : owes (.wrote update) = false)
    (hruns : (if runs w'.record then 1 else 0) =
      if closes (.wrote update) then 0
      else if opens (.wrote update) then (if runs w.record then 1 else 0) + 1
      else if runs w.record then 1 else 0) : Kept r₀ w' := by
  have hsame : ¬ isOnResume (.wrote update) = true := nofun
  refine ⟨?_, ?_, ?_, ?_⟩
  · have hupdates : w'.updates = w.updates ++ [update] := by simp [LocalWorld.updates, hlog, update?]
    rw [hupdates, replay_concat, h.replay]
    exact hreplay
  · rw [hlog, since_concat, h.sessions, hruns]
  · rw [hlog, since_concat, since_concat, h.onResume, if_neg hsame, howes, if_neg Bool.false_ne_true]
  · -- what closes the session forgets its `onResume`
    rw [hlog, since_concat, hruns, if_neg hsame]
    by_cases hcloses : closes (.wrote update) = true
    · rw [if_pos hcloses]
      exact Nat.zero_le _
    · rw [if_neg hcloses, if_neg hcloses]
      split
      · exact Nat.le_succ_of_le h.once
      · exact h.once

/-- A change of the record that is there. -/
theorem Kept.edit (h : Kept r₀ w) (hrecord : w.record = some record) (change : RecordEdit) :
    Kept r₀ (w.edit record change) := by
  refine h.concat rfl ?_ rfl ?_
  · rw [hrecord]
    rfl
  · have hruns : runs (w.edit record change).record =
        if closes (.wrote (.edited change)) then false else runs w.record := by
      rw [hrecord]
      show decide ((change.on record).status = .running) = _
      rw [change.status]
      cases change <;> rfl
    rw [hruns]
    split
    · rfl
    · rfl

/-- The directory is removed. -/
theorem Kept.deleted (h : Kept r₀ w) :
    Kept r₀ { w with record := none, live := [], log := w.log ++ [.wrote .deleted] } := by
  refine h.concat rfl ?_ rfl rfl
  cases w.record <;> rfl

/-- A new sandbox is written where there is none. -/
theorem kept_created_iff (h : Kept r₀ w) (hruns : record.status = .running) :
    Kept r₀ (w.writeRecord record (.created record)) ↔ w.record = none := by
  constructor
  · intro hkept
    have hreplay := hkept.replay
    rw [updates_writeRecord, replay_concat, h.replay] at hreplay
    cases hrecord : w.record with
    | none => rfl
    | some current =>
      rw [hrecord] at hreplay
      cases hreplay
  · intro hnone
    have hnew : runs (w.writeRecord record (.created record)).record = true := decide_eq_true hruns
    refine h.concat rfl ?_ rfl ?_
    · rw [hnone]
      rfl
    · rw [hnew, hnone]
      rfl

/-- A session is opened where none runs, on the record as it is. -/
theorem kept_resumed_iff (h : Kept r₀ w) (callback : Bool) (now : Int) :
    Kept r₀ (w.resumed copy callback now) ↔ copy.UpToDate w.record := by
  have hupdates : (w.resumed copy callback now).updates = w.updates ++ [.started callback now] := by
    cases callback <;> simp [LocalWorld.resumed, LocalWorld.updates, LocalWorld.writeRecord, update?]
  have hrecord : (w.resumed copy callback now).record = some (copy.startSession now) := by
    cases callback <;> rfl
  have hreplay : replay RecordUpdate.apply r₀ (w.resumed copy callback now).updates =
      RecordUpdate.apply (.started callback now) w.record := by
    rw [hupdates, replay_concat, h.replay]
    rfl
  constructor
  · intro hkept
    have hstarted := hkept.replay
    rw [hreplay, hrecord] at hstarted
    cases hcurrent : w.record with
    | none =>
      rw [hcurrent] at hstarted
      cases hstarted
    | some current =>
      rw [hcurrent] at hstarted
      simp only [RecordUpdate.apply] at hstarted
      split at hstarted
      · cases hstarted
      · next hstatus =>
        exact ⟨current, rfl, hstatus, startSession_eq_iff.1 (Option.some.inj (Option.some.inj hstarted)).symm⟩
  · rintro ⟨current, hcurrent, hstatus, hagrees⟩
    have hcurrent : w.record = some current := hcurrent
    have hold : runs w.record = false := by rw [hcurrent]; exact decide_eq_false hstatus
    have hnew : runs (w.resumed copy callback now).record = true := by rw [hrecord]; rfl
    have happly : RecordUpdate.apply (.started callback now) w.record = some (w.resumed copy callback now).record := by
      rw [hrecord, hcurrent, RecordUpdate.apply, if_neg hstatus, startSession_eq_iff.2 hagrees]
    cases callback with
    | false =>
      refine h.concat rfl happly rfl ?_
      rw [hnew, hold]
      rfl
    | true =>
      have hlog : (w.resumed copy true now).log = w.log ++ [.wrote (.started true now)] ++ [.onResume] := rfl
      have hsessions := h.sessions
      have honce := h.once
      rw [hold] at hsessions honce
      refine ⟨hreplay.trans happly, ?_, ?_, ?_⟩
      · rw [hlog, since_concat, since_concat, hsessions, hnew]
        rfl
      · rw [hlog, since_concat, since_concat, since_concat, since_concat, h.onResume]
        rfl
      · rw [hlog, since_concat, since_concat, hnew]
        exact Nat.succ_le_succ honce

/-! ## The steps -/

theorem Kept.editCurrent (h : Kept r₀ w) (change : RecordEdit) (after : LocalCall) :
    Kept r₀ (w.editCurrent change after).1 := by
  unfold LocalWorld.editCurrent
  split
  · next current hcurrent => exact h.edit hcurrent change
  · exact h

theorem Kept.runDetached (h : Kept r₀ w) (pid : Option Nat) (now : Int) : Kept r₀ (w.runDetached pid now) := by
  unfold LocalWorld.runDetached
  split
  · next record pid hrecord =>
    split
    · exact (h.edit hrecord (.ranDetached pid now)).same rfl rfl
    · exact h
  · exact h

/-- The first turn of a call reads what it writes. -/
theorem Kept.accept (h : Kept r₀ w) (input : LocalInput) : Kept r₀ (w.accept input).1 := by
  cases input with
  | create | get | snapshot | delete | waitCommand => exact h
  | runDetached pid now => exact h.runDetached pid now
  | extendTimeout ms now =>
    show Kept r₀ (w.extendTimeout ms now)
    unfold LocalWorld.extendTimeout
    split
    · next record hrecord => exact h.edit hrecord _
    · exact h
  | stop =>
    show Kept r₀ w.stop.1
    unfold LocalWorld.stop
    split
    · next record hrecord =>
      split
      · exact h
      · exact h.edit hrecord _
    · exact h
  | deleteSnapshot snapshotId =>
    show Kept r₀ (w.deleteSnapshot snapshotId)
    unfold LocalWorld.deleteSnapshot
    split
    · next record hrecord =>
      split
      · exact h.edit hrecord _
      · exact h
    · exact h

/-- So do the handlers of a child's events. -/
theorem Kept.child (h : Kept r₀ w) (event : ChildEvent) : Kept r₀ (w.child event) := by
  cases event with
  | error cmdId =>
    simp only [LocalWorld.child]
    split
    · exact h.same rfl rfl
    · exact h
  | exit cmdId exitCode =>
    simp only [LocalWorld.child]
    split
    · split
      · next current hcurrent =>
        split
        · exact (h.edit hcurrent (.exited cmdId exitCode)).same rfl rfl
        · exact h.same rfl rfl
      · exact h.same rfl rfl
    · exact h

theorem Kept.waited (h : Kept r₀ w) (cmdId : Text) : Kept r₀ (w.waited cmdId) := by
  unfold LocalWorld.waited
  split
  · next current hcurrent =>
    split
    · exact h.edit hcurrent _
    · exact h
  · exact h

/-- And so do the later turns, but for those that write what was read before the wait. -/
theorem kept_next_iff (h : Kept r₀ w) {call call' : LocalCall} {answer : LocalAnswer}
    (hnext : w.next call answer = some (w', call')) : Kept r₀ w' ↔ call.InTime w.record answer := by
  unfold LocalWorld.next at hnext
  split at hnext
  -- a `get` that has restored the sandbox writes its copy
  · cases hnext
    rw [kept_resumed_iff h]
    exact ⟨fun hin _ => hin, fun hin => hin rfl⟩
  · cases hnext
    exact iff_of_true h (by rintro ⟨⟩)
  -- a `create` writes the first record
  · cases hnext
    rw [kept_created_iff h rfl]
    exact ⟨fun hnone _ => hnone, fun hin => hin rfl⟩
  · cases hnext
    exact iff_of_true h (by rintro ⟨⟩)
  -- the children are gone, for a `stop` and for a `delete`
  · obtain ⟨rfl, rfl⟩ := Prod.mk.injEq .. ▸ Option.some.inj hnext
    exact iff_of_true (h.editCurrent _ _) trivial
  · obtain ⟨rfl, rfl⟩ := Prod.mk.injEq .. ▸ Option.some.inj hnext
    exact iff_of_true (h.editCurrent _ _) trivial
  -- a snapshot is archived, or it could not be
  · obtain ⟨rfl, rfl⟩ := Prod.mk.injEq .. ▸ Option.some.inj hnext
    exact iff_of_true (h.editCurrent _ _) trivial
  · cases hnext
    exact iff_of_true h trivial
  -- the end of a `stop`, and of a `delete`
  · obtain ⟨rfl, rfl⟩ := Prod.mk.injEq .. ▸ Option.some.inj hnext
    exact iff_of_true (h.editCurrent _ _) trivial
  · cases hnext
    exact iff_of_true h.deleted trivial
  -- a command of an earlier process has exited, or the wait for it failed
  · cases hnext
    exact iff_of_true (h.waited _) trivial
  · cases hnext
    exact iff_of_true h trivial
  -- no call waits for any other answer
  · cases hnext

theorem kept_step_iff {s s' : Table LocalWorld LocalCall} {e : Event LocalInput LocalAnswer ChildEvent}
    (h : Kept r₀ s.world) (hstep : localSystem.step s e = some s') : Kept r₀ s'.world ↔ InTime s e := by
  cases Machine.steps_of_step hstep with
  | @arrive n input w call _ haccept =>
    obtain rfl : (s.world.accept input).1 = w := congrArg Prod.fst (Option.some.inj haccept)
    exact iff_of_true (h.accept input) trivial
  | @act n answer w call call' st hcall hnext _ =>
    obtain ⟨⟨w', after⟩, hturn, heq⟩ := Option.map_eq_some_iff.1 hnext
    cases heq
    rw [Table.after_world, kept_next_iff h hturn]
    refine ⟨fun hin call' hcall' => ?_, fun hin => hin call hcall⟩
    cases hcall.symm.trans hcall'
    exact hin
  | halt _ hhalt => cases hhalt
  | env => exact iff_of_true (h.child _) trivial

/-- Over any run, no written update of the record is lost to a stale copy and the sessions are opened one at a time,
each with its `onResume`, in every state on the way, exactly if every `create` and `get` that comes back to write does
so in time. -/
theorem local_record {s t : Table LocalWorld LocalCall} {es : List (Event LocalInput LocalAnswer ChildEvent)}
    (hs : localSystem.init s) (h : localSystem.exec s es = some t) :
    (∀ before u, before <+: es → localSystem.exec s before = some u → Kept s.world.record u.world) ↔
      ∀ before e u, before ++ [e] <+: es → localSystem.exec s before = some u → InTime u e :=
  System.kept_iff (Kept.start hs.1) (fun _ _ _ hkept hstep => kept_step_iff hkept hstep) h

/-! ## Runs -/

/-- A sandbox after its first session, which was stopped. -/
def sampleRecord : LocalSandboxRecord :=
  { name := ['a'], portMap := [(8443, 40001)], internal := (40002, 40003), status := .stopped, startedAt := none,
    expiresAt := none, sessionId := none, sessionSeq := 1, timeoutMs := 1000, keepLastSnapshots := some 2,
    snapshotIds := [['s']], commands := [], cmdSeq := 0 }

def sampleProcess (record : LocalSandboxRecord) : Table LocalWorld LocalCall := ⟨⟨some record, [], [], []⟩, []⟩

/-- A resume by itself, and the timeout of its session extended. -/
theorem local_record_resumed : ∃ w : LocalWorld,
    w.log = [.wrote (.started true 5), .onResume, .wrote (.edited (.extended 10 6))] ∧ Kept (some sampleRecord) w := by
  have hrun : localSystem.exec (sampleProcess sampleRecord)
      [.arrive 0 (.get true true), .act 0 (.restored 5), .arrive 1 (.extendTimeout 10 6)] = some _ := rfl
  have hkept := local_record ⟨⟨rfl, rfl, rfl⟩, rfl⟩ hrun
  exact ⟨_, rfl, hkept.2 (System.forall_of_execs (by decide)) _ _ List.prefix_rfl hrun⟩

/-- Two resumes of a stopped sandbox both open its session and both run `onResume`; a resume of a sandbox that is being
stopped takes back the exit of a command. -/
theorem stale_copies_written :
    (∃ t, localSystem.exec (sampleProcess sampleRecord)
        [.arrive 0 (.get true true), .arrive 1 (.get true true), .act 0 (.restored 5), .act 1 (.restored 6)] = some t ∧
      t.world.log = [.wrote (.started true 5), .onResume, .wrote (.started true 6), .onResume] ∧
      ¬ Kept (some sampleRecord) t.world) ∧
    ∃ t, localSystem.exec (sampleProcess { sampleRecord with status := .running })
        [.arrive 0 (.runDetached (some 7) 1), .arrive 1 .stop, .arrive 2 (.get true false),
          .env (.exit "lcmd_0001".toList 143), .act 2 (.restored 5)] = some t ∧
      .wrote (.edited (.exited "lcmd_0001".toList 143)) ∈ t.world.log ∧
      (t.world.record.bind fun record => record.command "lcmd_0001".toList) =
        some ⟨"lcmd_0001".toList, 7, 1, none⟩ ∧
      ¬ Kept (some { sampleRecord with status := .running }) t.world := by
  refine ⟨⟨_, rfl, rfl, fun hkept => ?_⟩, ⟨_, rfl, by decide, by decide, fun hkept => ?_⟩⟩
  · exact absurd hkept.once (by decide)
  · exact absurd hkept.replay (by decide)

end Zedspaces.Web
