/-
The wait of a parent for its child (`awaitChild`). The ceiling on an unreadable status is measured from the start of the
wait, whatever was seen since: a child that is seen running after 45 minutes is reported lost at the next unreadable
status (`child_lost_at_once`). The loop is as patient as it should be exactly if every known status is long past when the
first unknown one comes after the ceiling (`awaitChild_patient`).
-/
import Zedspaces.Lifecycle.Workflows

namespace Zedspaces.Lifecycle

/-- A round of the loop: the status it reads, and the clock after that. -/
structure Poll where
  status : RunStatus
  now : Int
  deriving DecidableEq, Repr

/-- What a round comes to. -/
inductive Polled where
  | ends
  | lost
  | waits
  deriving DecidableEq, Repr

/-- The body of the loop. -/
def Poll.look (startedAt : Int) (poll : Poll) : Polled :=
  match poll.status with
  | .completed | .failed | .cancelled => .ends
  | .unknown => if poll.now - startedAt > unknownCeilingMs then .lost else .waits
  | .pending | .running => .waits

/-- `stepChildResult(name, runId)`, with what the run's `returnValue` settles to. -/
def stepChildResult {α : Type} (name : String) (returnValue : Except String α) : Except String α :=
  returnValue.mapError fun message => "child_" ++ name ++ "_failed: " ++ message

/-- The `FatalError` of a child that could not be observed. -/
def childLost (name runId : String) : String := "child_" ++ name ++ "_lost: run " ++ runId ++ " could not be observed"

/-- `awaitChild(name, runId)` over what its rounds see; nothing while it goes on. -/
def awaitChild {α : Type} (name runId : String) (returnValue : Except String α) (startedAt : Int) :
    List Poll → Option (Except String α)
  | [] => none
  | poll :: polls => match poll.look startedAt with
    | .ends => some (stepChildResult name returnValue)
    | .lost => some (.error (childLost name runId))
    | .waits => awaitChild name runId returnValue startedAt polls

/-- Where a round takes the body of the parent. -/
def Polled.next (run : RunId) (startedAt : Int) : Polled → Next ChildPc
  | ends => .goto (.result run)
  | lost => .throws "child_lost"
  | waits => .goto (.await run startedAt)

/-- A round of the loop is the step that the parent's body takes in it. -/
theorem look_eq_next (input : Input) (run : RunId) (startedAt : Int) (poll : Poll) (w : World) (hnow : w.now = poll.now) :
    (ChildPc.next input (.await run startedAt) (.status poll.status) w).map Did.next =
      some ((poll.look startedAt).next run startedAt) := by
  obtain ⟨status, now⟩ := poll
  obtain rfl : w.now = now := hnow
  cases status with
  | completed | failed | cancelled | pending | running => rfl
  | unknown =>
    by_cases hlate : w.now - startedAt > unknownCeilingMs
    · simp [ChildPc.next, Poll.look, Polled.next, hlate, Did.throws]
    · simp [ChildPc.next, Poll.look, Polled.next, hlate, Did.goto]

/-! ## Patience -/

variable {α : Type} {name runId : String} {returnValue : Except String α} {startedAt : Int} {before after polls : List Poll}
  {poll : Poll}

/-- At the round the status has been unknown for the whole ceiling: the wait has lasted longer, and every round since
read an unknown status. -/
structure UnknownThroughout (startedAt : Int) (before : List Poll) (poll : Poll) : Prop where
  unknown : poll.status = .unknown
  started : poll.now - startedAt > unknownCeilingMs
  seen : ∀ earlier ∈ before, earlier.status ≠ .unknown → poll.now - earlier.now > unknownCeilingMs

/-- The loop goes on after these rounds. -/
def Waits (startedAt : Int) (polls : List Poll) : Prop := ∀ poll ∈ polls, poll.look startedAt = .waits

theorem awaitChild_append (hwaits : Waits startedAt before) (polls : List Poll) :
    awaitChild name runId returnValue startedAt (before ++ polls) = awaitChild name runId returnValue startedAt polls := by
  induction before with
  | nil => rfl
  | cons poll before ih =>
    obtain ⟨hpoll, hbefore⟩ := List.forall_mem_cons.1 hwaits
    rw [List.cons_append, awaitChild, hpoll]
    exact ih hbefore

theorem awaitChild_eq_none : awaitChild name runId returnValue startedAt polls = none ↔ Waits startedAt polls := by
  induction polls with
  | nil => exact ⟨fun _ => by rintro _ ⟨⟩, fun _ => rfl⟩
  | cons poll polls ih =>
    rw [awaitChild, Waits, List.forall_mem_cons]
    cases poll.look startedAt with
    | ends => simp
    | lost => simp
    | waits => exact ih.trans (by simp [Waits])

theorem look_eq_lost : poll.look startedAt = .lost ↔ poll.status = .unknown ∧ poll.now - startedAt > unknownCeilingMs := by
  obtain ⟨status, now⟩ := poll
  cases status with
  | completed | failed | cancelled | pending | running => simp [Poll.look]
  | unknown =>
    by_cases hlate : now - startedAt > unknownCeilingMs
    · simp [Poll.look, hlate]
    · simp [Poll.look, hlate]

theorem look_eq_ends : poll.look startedAt = .ends ↔
    poll.status = .completed ∨ poll.status = .failed ∨ poll.status = .cancelled := by
  obtain ⟨status, now⟩ := poll
  cases status with
  | completed | failed | cancelled | pending | running => simp [Poll.look]
  | unknown => by_cases hlate : now - startedAt > unknownCeilingMs <;> simp [Poll.look, hlate]

/-- The report of a lost child is no child's own failure. -/
theorem stepChildResult_ne_lost (name runId : String) (returnValue : Except String α) :
    stepChildResult name returnValue ≠ .error (childLost name runId) := by
  intro h
  cases returnValue with
  | ok value => cases h
  | error message =>
    have heq := congrArg String.toList (Except.error.inj h)
    simp [childLost] at heq

theorem awaitChild_eq_lost (hwaits : Waits startedAt before) :
    awaitChild name runId returnValue startedAt (before ++ [poll]) = some (.error (childLost name runId)) ↔
      poll.look startedAt = .lost := by
  rw [awaitChild_append hwaits, awaitChild]
  cases poll.look startedAt with
  | ends => simpa using stepChildResult_ne_lost name runId returnValue
  | lost => simp
  | waits => simp [awaitChild]

/-- The first unknown status after the ceiling, while the child has not ended. -/
structure FirstLate (startedAt : Int) (before : List Poll) (poll : Poll) : Prop where
  unknown : poll.status = .unknown
  late : poll.now - startedAt > unknownCeilingMs
  first : ∀ earlier ∈ before, earlier.status ∉ [.completed, .failed, .cancelled] ∧
    (earlier.status = .unknown → earlier.now - startedAt ≤ unknownCeilingMs)

theorem firstLate_iff : FirstLate startedAt before poll ↔ Waits startedAt before ∧ poll.look startedAt = .lost := by
  have hwaits : ∀ earlier : Poll, earlier.look startedAt = .waits ↔
      earlier.status ∉ [.completed, .failed, .cancelled] ∧
        (earlier.status = .unknown → earlier.now - startedAt ≤ unknownCeilingMs) := by
    rintro ⟨status, now⟩
    cases status with
    | completed | failed | cancelled | pending | running => simp [Poll.look]
    | unknown =>
      by_cases hlate : now - startedAt > unknownCeilingMs
      · have hlook : Poll.look startedAt ⟨.unknown, now⟩ = .lost := if_pos hlate
        exact iff_of_false (by simp [hlook]) fun ⟨_, hwithin⟩ => absurd (hwithin rfl) (not_le.2 hlate)
      · have hlook : Poll.look startedAt ⟨.unknown, now⟩ = .waits := if_neg hlate
        exact iff_of_true hlook ⟨by simp, fun _ => not_lt.1 hlate⟩
  rw [look_eq_lost]
  constructor
  · intro h
    exact ⟨fun earlier hmem => (hwaits earlier).2 (h.first earlier hmem), h.unknown, h.late⟩
  · rintro ⟨hbefore, hunknown, hlate⟩
    exact ⟨hunknown, hlate, fun earlier hmem => (hwaits earlier).1 (hbefore earlier hmem)⟩

/-- The child is reported lost only after the status has been unknown for the whole ceiling exactly if every status that
was known before the first late unknown one was seen longer ago than the ceiling. A child that ends is reported with its
own outcome. -/
theorem awaitChild_patient (name runId : String) (returnValue : Except String α) (startedAt : Int) (polls : List Poll) :
    ((∀ before poll after, polls = before ++ poll :: after →
        awaitChild name runId returnValue startedAt before = none →
        awaitChild name runId returnValue startedAt (before ++ [poll]) = some (.error (childLost name runId)) →
        UnknownThroughout startedAt before poll) ↔
      ∀ before poll after, polls = before ++ poll :: after → FirstLate startedAt before poll →
        ∀ earlier ∈ before, earlier.status ≠ .unknown → poll.now - earlier.now > unknownCeilingMs) ∧
    ∀ before poll after, polls = before ++ poll :: after → awaitChild name runId returnValue startedAt before = none →
      poll.status ∈ [.completed, .failed, .cancelled] →
      awaitChild name runId returnValue startedAt polls = some (stepChildResult name returnValue) := by
  refine ⟨⟨fun hpatient before poll after heq hlate => ?_, fun hlong before poll after heq hnone hlost => ?_⟩, ?_⟩
  · obtain ⟨hwaits, hlost⟩ := firstLate_iff.1 hlate
    exact (hpatient before poll after heq (awaitChild_eq_none.2 hwaits) ((awaitChild_eq_lost hwaits).2 hlost)).seen
  · have hwaits := awaitChild_eq_none.1 hnone
    have hlate : FirstLate startedAt before poll := firstLate_iff.2 ⟨hwaits, (awaitChild_eq_lost hwaits).1 hlost⟩
    exact ⟨hlate.unknown, hlate.late, hlong before poll after heq hlate⟩
  · rintro before poll after rfl hnone hends
    have hlook : poll.look startedAt = .ends := look_eq_ends.2 (by simpa using hends)
    rw [awaitChild_append (awaitChild_eq_none.1 hnone), awaitChild, hlook]

/-- A child that fails after an hour in which it was seen running and, for ten minutes, not at all. -/
theorem awaitChild_patient_failed :
    awaitChild (α := Unit) "stopWorkspace" "run" (.error "vm_gone") 0
      [⟨.running, 60000⟩, ⟨.unknown, 2400000⟩, ⟨.running, 3000000⟩, ⟨.failed, 3600000⟩] =
        some (.error "child_stopWorkspace_failed: vm_gone") :=
  (awaitChild_patient "stopWorkspace" "run" (.error "vm_gone") 0
    [⟨.running, 60000⟩, ⟨.unknown, 2400000⟩, ⟨.running, 3000000⟩, ⟨.failed, 3600000⟩]).2
    [⟨.running, 60000⟩, ⟨.unknown, 2400000⟩, ⟨.running, 3000000⟩] ⟨.failed, 3600000⟩ [] rfl rfl (by decide)

/-- A child that is seen running after 46 minutes is lost five seconds later. -/
theorem child_lost_at_once : ¬ ∀ (polls : List Poll) (before : List Poll) (poll : Poll) (after : List Poll),
    polls = before ++ poll :: after → awaitChild "createWorkspace" "run" (.ok ()) 0 before = none →
    awaitChild "createWorkspace" "run" (.ok ()) 0 (before ++ [poll]) = some (.error (childLost "createWorkspace" "run")) →
    UnknownThroughout 0 before poll := by
  intro h
  have hseen := (h [⟨.running, 2760000⟩, ⟨.unknown, 2765000⟩] [⟨.running, 2760000⟩] ⟨.unknown, 2765000⟩ [] rfl rfl rfl).seen
  exact absurd (hseen ⟨.running, 2760000⟩ (List.mem_singleton_self _) (by decide)) (by decide)

end Zedspaces.Lifecycle
