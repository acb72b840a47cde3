/-
The notices of the activity relay (`activity.rs`). Of the deadlines it has announced the policy remembers the latest
idle deadline and the latest session cap only, so it announces a deadline again that comes back after another one
(`deadline_announced_twice`). What it announces are the due deadlines with their repetitions left out; hence each is
announced once exactly if no due deadline comes back (`announced_once`).
-/
import Mathlib.Algebra.Group.Nat.Defs
import Zedspaces.Lib.Destutter
import Zedspaces.Supervisor.Forwards

namespace Zedspaces.Supervisor

open Lib

/-- The control plane's answer to a ping; times are milliseconds. -/
structure ActivityDirective where
  idleStopAt : Option Nat
  sessionCapAt : Option Nat
  stop : Bool
  forwards : Option (List Forward)
  serverTime : Option Nat

inductive LifecycleBody where
  | idleStopIn (seconds : Nat)
  | sessionCapIn (seconds : Nat)
  | stopping
  | resumed
  deriving DecidableEq, Repr

def idleNoticeLeadMs : Nat := 5 * 60 * 1000

def capNoticeLeadMs : Nat := 30 * 60 * 1000

/-- Rounded down, and at most what fits in 32 bits. -/
def secondsUntil (atMs nowMs : Nat) : Nat :=
  let seconds := (atMs - nowMs) / 1000
  if seconds < 2 ^ 32 then seconds else 2 ^ 32 - 1

structure NoticePolicy where
  idleNotifiedFor : Option Nat
  capNotifiedFor : Option Nat
  stopSeen : Bool

namespace NoticePolicy

def default : NoticePolicy := ⟨none, none, false⟩

/-- A deadline within its lead that is not the one announced last. -/
def toAnnounce (deadline : Option Nat) (lead : Nat) (notifiedFor : Option Nat) (nowMs : Nat) : Option Nat :=
  deadline.filter fun at_ => at_ - nowMs ≤ lead ∧ notifiedFor ≠ some at_

/-- Applies one directive: the notices to post. -/
def accept (p : NoticePolicy) (directive : ActivityDirective) (nowMs : Nat) : NoticePolicy × List LifecycleBody :=
  let idle := toAnnounce directive.idleStopAt idleNoticeLeadMs p.idleNotifiedFor nowMs
  let cap := toAnnounce directive.sessionCapAt capNoticeLeadMs p.capNotifiedFor nowMs
  ({ idleNotifiedFor := idle.or p.idleNotifiedFor
     capNotifiedFor := cap.or p.capNotifiedFor
     stopSeen := p.stopSeen || directive.stop },
   (idle.map fun at_ => .idleStopIn (secondsUntil at_ nowMs)).toList ++
     (cap.map fun at_ => .sessionCapIn (secondsUntil at_ nowMs)).toList)

def stopRequested (p : NoticePolicy) : Bool := p.stopSeen

/-- The directives a relay has accepted, each at its time, with the notices it posted for them. -/
def posted (p : NoticePolicy) : List (ActivityDirective × Nat) → List (ActivityDirective × List LifecycleBody)
  | [] => []
  | (directive, nowMs) :: rest =>
    (directive, (p.accept directive nowMs).2) :: (p.accept directive nowMs).1.posted rest

end NoticePolicy

def LifecycleBody.isIdleStopIn : LifecycleBody → Bool
  | .idleStopIn _ => true
  | _ => false

def LifecycleBody.isSessionCapIn : LifecycleBody → Bool
  | .sessionCapIn _ => true
  | _ => false

/-- The deadlines, as many times as a notice of the kind was posted for them. -/
def announced (kind : LifecycleBody → Bool) (deadline : ActivityDirective → Option Nat)
    (posts : List (ActivityDirective × List LifecycleBody)) : List Nat :=
  posts.flatMap fun post => (post.2.filter kind).flatMap fun _ => (deadline post.1).toList

def idleAnnounced : List (ActivityDirective × List LifecycleBody) → List Nat :=
  announced LifecycleBody.isIdleStopIn ActivityDirective.idleStopAt

def capAnnounced : List (ActivityDirective × List LifecycleBody) → List Nat :=
  announced LifecycleBody.isSessionCapIn ActivityDirective.sessionCapAt

/-- The deadlines that are within their lead when their directive comes. -/
def due (deadline : ActivityDirective → Option Nat) (lead : Nat) (run : List (ActivityDirective × Nat)) : List Nat :=
  run.filterMap fun d => (deadline d.1).filter fun at_ => at_ - d.2 ≤ lead

/-! ## What is announced -/

section
variable {deadline : Option Nat} {lead nowMs at_ : Nat} {last : Option Nat} {rest out : List Nat}

theorem toAnnounce_some : NoticePolicy.toAnnounce (some at_) lead last nowMs =
    if at_ - nowMs ≤ lead ∧ last ≠ some at_ then some at_ else none := by
  simp only [NoticePolicy.toAnnounce, Option.filter, decide_eq_true_eq]

/-- Announcing a due deadline, unless it is the last one announced, leaves out repetitions. -/
theorem toAnnounce_destutter
    (hrest : ((NoticePolicy.toAnnounce deadline lead last nowMs).or last).toList ++ out =
      (((NoticePolicy.toAnnounce deadline lead last nowMs).or last).toList ++ rest).destutter (· ≠ ·)) :
    last.toList ++ ((NoticePolicy.toAnnounce deadline lead last nowMs).toList ++ out) =
      (last.toList ++ ((deadline.filter fun at_ => at_ - nowMs ≤ lead).toList ++ rest)).destutter (· ≠ ·) := by
  cases deadline with
  | none => exact hrest
  | some at_ =>
    rw [toAnnounce_some] at hrest ⊢
    by_cases hdue : at_ - nowMs ≤ lead
    · have hkeep : (some at_).filter (fun at_ => decide (at_ - nowMs ≤ lead)) = some at_ := if_pos (decide_eq_true hdue)
      rw [hkeep]
      by_cases hnew : last = some at_
      · -- the deadline announced last is not announced again
        rw [if_neg fun h => h.2 hnew] at hrest ⊢
        subst hnew
        show at_ :: out = (at_ :: at_ :: rest).destutter (· ≠ ·)
        rw [List.destutter_cons_cons, if_neg (not_not.2 rfl)]
        exact hrest
      · rw [if_pos ⟨hdue, hnew⟩] at hrest ⊢
        cases last with
        | none => exact hrest
        | some a =>
          have hne : a ≠ at_ := fun h => hnew (congrArg some h)
          have hrest : at_ :: out = (at_ :: rest).destutter (· ≠ ·) := hrest
          show a :: at_ :: out = (a :: at_ :: rest).destutter (· ≠ ·)
          rw [List.destutter_cons_cons, if_pos hne, hrest]
          rfl
    · have hdrop : (some at_).filter (fun at_ => decide (at_ - nowMs ≤ lead)) = none := if_neg (by simpa using hdue)
      rw [if_neg fun h => hdue h.1] at hrest ⊢
      rw [hdrop]
      exact hrest

end

/-- What one kind of notice announces for one directive. -/
theorem announced_cons (kind : LifecycleBody → Bool) (deadline : ActivityDirective → Option Nat)
    (post : ActivityDirective × List LifecycleBody) (posts : List (ActivityDirective × List LifecycleBody)) :
    announced kind deadline (post :: posts) =
      (post.2.filter kind).flatMap (fun _ => (deadline post.1).toList) ++ announced kind deadline posts :=
  List.flatMap_cons

theorem toAnnounce_eq {deadline : Option Nat} {lead nowMs at_ : Nat} {last : Option Nat}
    (h : NoticePolicy.toAnnounce deadline lead last nowMs = some at_) : deadline = some at_ :=
  (Option.filter_eq_some_iff.1 h).1

theorem accept_idle (p : NoticePolicy) (directive : ActivityDirective) (nowMs : Nat) :
    ((p.accept directive nowMs).2.filter LifecycleBody.isIdleStopIn).flatMap (fun _ => directive.idleStopAt.toList) =
      (NoticePolicy.toAnnounce directive.idleStopAt idleNoticeLeadMs p.idleNotifiedFor nowMs).toList := by
  unfold NoticePolicy.accept
  dsimp only
  cases hcap : NoticePolicy.toAnnounce directive.sessionCapAt capNoticeLeadMs p.capNotifiedFor nowMs <;>
    cases hidle : NoticePolicy.toAnnounce directive.idleStopAt idleNoticeLeadMs p.idleNotifiedFor nowMs with
    | none => rfl
    | some at_ =>
      rw [toAnnounce_eq hidle]
      rfl

theorem accept_cap (p : NoticePolicy) (directive : ActivityDirective) (nowMs : Nat) :
    ((p.accept directive nowMs).2.filter LifecycleBody.isSessionCapIn).flatMap (fun _ => directive.sessionCapAt.toList) =
      (NoticePolicy.toAnnounce directive.sessionCapAt capNoticeLeadMs p.capNotifiedFor nowMs).toList := by
  unfold NoticePolicy.accept
  dsimp only
  cases hidle : NoticePolicy.toAnnounce directive.idleStopAt idleNoticeLeadMs p.idleNotifiedFor nowMs <;>
    cases hcap : NoticePolicy.toAnnounce directive.sessionCapAt capNoticeLeadMs p.capNotifiedFor nowMs with
    | none => rfl
    | some at_ =>
      rw [toAnnounce_eq hcap]
      rfl

theorem due_cons (deadline : ActivityDirective → Option Nat) (lead : Nat) (d : ActivityDirective × Nat)
    (run : List (ActivityDirective × Nat)) : due deadline lead (d :: run) =
      ((deadline d.1).filter fun at_ => at_ - d.2 ≤ lead).toList ++ due deadline lead run := by
  rw [due, List.filterMap_cons]
  cases (deadline d.1).filter fun at_ => decide (at_ - d.2 ≤ lead) <;> rfl

/-- The announced idle deadlines are the due ones without repetitions. -/
theorem idleAnnounced_posted (p : NoticePolicy) (run : List (ActivityDirective × Nat)) :
    p.idleNotifiedFor.toList ++ idleAnnounced (p.posted run) =
      (p.idleNotifiedFor.toList ++ due ActivityDirective.idleStopAt idleNoticeLeadMs run).destutter (· ≠ ·) := by
  induction run generalizing p with
  | nil => cases p.idleNotifiedFor <;> rfl
  | cons d run ih =>
    rw [NoticePolicy.posted, idleAnnounced, announced_cons, accept_idle, due_cons]
    exact toAnnounce_destutter (ih (p.accept d.1 d.2).1)

/-- The announced session caps are the due ones without repetitions. -/
theorem capAnnounced_posted (p : NoticePolicy) (run : List (ActivityDirective × Nat)) :
    p.capNotifiedFor.toList ++ capAnnounced (p.posted run) =
      (p.capNotifiedFor.toList ++ due ActivityDirective.sessionCapAt capNoticeLeadMs run).destutter (· ≠ ·) := by
  induction run generalizing p with
  | nil => cases p.capNotifiedFor <;> rfl
  | cons d run ih =>
    rw [NoticePolicy.posted, capAnnounced, announced_cons, accept_cap, due_cons]
    exact toAnnounce_destutter (ih (p.accept d.1 d.2).1)

/-- Each deadline is announced once at most exactly if no due deadline comes back after another one. -/
theorem announced_once (run : List (ActivityDirective × Nat)) :
    ((idleAnnounced (NoticePolicy.default.posted run)).Nodup ∧ (capAnnounced (NoticePolicy.default.posted run)).Nodup) ↔
      Unbroken (due ActivityDirective.idleStopAt idleNoticeLeadMs run) ∧
        Unbroken (due ActivityDirective.sessionCapAt capNoticeLeadMs run) := by
  have hidle : idleAnnounced (NoticePolicy.default.posted run) =
      (due ActivityDirective.idleStopAt idleNoticeLeadMs run).destutter (· ≠ ·) := idleAnnounced_posted .default run
  have hcap : capAnnounced (NoticePolicy.default.posted run) =
      (due ActivityDirective.sessionCapAt capNoticeLeadMs run).destutter (· ≠ ·) := capAnnounced_posted .default run
  rw [hidle, hcap, nodup_destutter, nodup_destutter]

/-- A deadline that a keepalive puts off for a while comes back when the keepalive has expired, and is announced
again. -/
theorem deadline_announced_twice : ¬ ∀ run : List (ActivityDirective × Nat), (run.map Prod.snd).Pairwise (· ≤ ·) →
    (idleAnnounced (NoticePolicy.default.posted run)).Nodup ∧
      (capAnnounced (NoticePolicy.default.posted run)).Nodup := by
  intro h
  have hrun := h [(⟨some 1800000, none, false, none, none⟩, 1620000), (⟨some 3420000, none, false, none, none⟩, 3300000),
    (⟨some 1800000, none, false, none, none⟩, 3440000)] (by decide)
  revert hrun
  decide

end Zedspaces.Supervisor
