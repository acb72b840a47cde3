/-
When a workspace was last active: the activity ping with the directive it is answered with, the keepalive request,
and what the sweep decides for a running workspace. Times are milliseconds. Each of the workspace's keys in the KV
store has an expiry, from which on it is not read any more.
-/
import Zedspaces.Web.Forwards

namespace Zedspaces.Web

open Lifecycle (WorkspaceState)

def pingTtlMs : Int := 120000

def lastActiveWriteMs : Int := 60000

def cpuStrikeTtlMs : Int := 20 * 60000

def clockSkewMs : Int := 30000

def busyExtendsMs : Int := 60 * 60000

def pingLostMs : Int := 5 * 60000

def cpuStrikes : Int := 30

def capLeadMs : Int := 30 * 60000

def capRestartRecentMs : Int := 2 * 3600000

inductive BootPhase where
  | manifest | restore | clone | serverStarting | services | dotfiles | postCreate | postStart | ready
  deriving DecidableEq, Repr

def BootPhase.name : BootPhase → String
  | .manifest => "manifest"
  | .restore => "restore"
  | .clone => "clone"
  | .serverStarting => "server_starting"
  | .services => "services"
  | .dotfiles => "dotfiles"
  | .postCreate => "post_create"
  | .postStart => "post_start"
  | .ready => "ready"

structure ActivityReport where
  lastInputAt : Option Int
  busy : Bool
  phase : BootPhase
  cpuBusyPct : Option Rat
  listening : Option (List Int)

/-- The columns of the workspace that the ping and the sweep read. -/
structure ActivityRow where
  state : WorkspaceState
  stateReason : Option String
  idleMinutes : Int
  sessionStartedAt : Option Int
  lastActiveAt : Int
  updatedAt : Int

/-- A value in the KV store and when it expires. -/
structure KvEntry (α : Type) where
  value : α
  expiresAt : Int

def KvEntry.get {α : Type} (entry : Option (KvEntry α)) (now : Int) : Option α :=
  (entry.filter (now < ·.expiresAt)).map KvEntry.value

theorem KvEntry.get_eq_some {α : Type} {entry : Option (KvEntry α)} {now : Int} {a : α} :
    KvEntry.get entry now = some a ↔ ∃ x, entry = some x ∧ now < x.expiresAt ∧ x.value = a := by
  simp only [KvEntry.get, Option.map_eq_some_iff, Option.filter_eq_some_iff, decide_eq_true_eq, and_assoc]

/-- The workspace's keys. -/
structure ActivityKeys where
  activity : Option (KvEntry Int)
  keepalive : Option (KvEntry Int)
  busy : Option (KvEntry BootPhase)
  health : Option (KvEntry Int)
  cpu : Option (KvEntry Int)

structure ActivityDirective where
  idleStopAt : Int
  sessionCapAt : Option Int
  stop : Bool
  forwards : List ForwardView
  serverTime : Int

def ActivityRow.thresholdMs (row : ActivityRow) : Int := row.idleMinutes * 60000

/-! ## The activity ping -/

section
variable (row : ActivityRow) (report : ActivityReport) (attached : Bool) (now : Int)

def isBusy : Bool :=
  (report.busy || report.phase ≠ .ready) && decide (now - row.sessionStartedAt.getD now ≤ busyExtendsMs)

/-- The input instant counts while an editor session is open. -/
def activityInstant (keys : ActivityKeys) : Int :=
  if isBusy row report now then now
  else
    let floor := row.sessionStartedAt.getD 0
    match report.lastInputAt, attached with
    | some lastInputAt, true => min (max lastInputAt floor) (now + clockSkewMs)
    | _, _ => max (max ((KvEntry.get keys.activity now).getD 0) floor) row.lastActiveAt

/-- `incr` with a time to live. -/
def incr (entry : Option (KvEntry Int)) (ttlMs now : Int) : Option (KvEntry Int) :=
  match entry with
  | some entry =>
    if now < entry.expiresAt then some { entry with value := entry.value + 1 } else some ⟨1, now + ttlMs⟩
  | none => some ⟨1, now + ttlMs⟩

def writeActivityKeys (activityAt : Int) (keys : ActivityKeys) : ActivityKeys where
  activity := some ⟨activityAt, now + max pingTtlMs (2 * row.idleMinutes * 60000)⟩
  keepalive := keys.keepalive
  busy := if isBusy row report now then some ⟨report.phase, now + pingTtlMs⟩ else none
  health := some ⟨now, now + pingTtlMs⟩
  cpu := match report.cpuBusyPct with
    | none => keys.cpu
    | some cpu => if !attached && !isBusy row report now && decide (80 < cpu) then incr keys.cpu cpuStrikeTtlMs now else none

/-- Records the reason and the activity instant, when they say something new. -/
def syncWorkspaceRow (activityAt : Int) : ActivityRow :=
  let reason := if isBusy row report now then some ("boot:" ++ report.phase.name) else none
  let patchReason := decide (row.state = .running ∧ row.stateReason ≠ reason)
  let patchActive := decide (lastActiveWriteMs < activityAt - row.lastActiveAt)
  { row with
    stateReason := if patchReason then reason else row.stateReason
    lastActiveAt := if patchActive then min activityAt (now + clockSkewMs) else row.lastActiveAt
    updatedAt := if patchReason || patchActive then now else row.updatedAt }

/-- The last activity that the directive counts from. -/
def lastActive (activityAt keepaliveAt : Int) : Int :=
  max (max (max (max activityAt keepaliveAt) (row.sessionStartedAt.getD 0))
    (if isBusy row report now then now else 0)) row.lastActiveAt

def directiveFor (sessionCapMs activityAt keepaliveAt : Int) (forwards : List ForwardView) : ActivityDirective :=
  { idleStopAt := lastActive row report now activityAt keepaliveAt + row.thresholdMs
    sessionCapAt := row.sessionStartedAt.map (· + sessionCapMs)
    stop := row.state = .stopping
    forwards
    serverTime := now }

end

/-- `POST /api/sandboxes/{name}/activity` -/
def activityPing (e : Env) (row : ActivityRow) (keys : ActivityKeys) (report : ActivityReport) (attached : Bool)
    (forwards : List ForwardView) (now : Int) : ActivityRow × ActivityKeys × ActivityDirective :=
  let activityAt := activityInstant row report attached now keys
  let keys := writeActivityKeys row report attached now activityAt keys
  let keepaliveAt := (KvEntry.get keys.keepalive now).getD 0
  (syncWorkspaceRow row report now activityAt, keys, directiveFor row report now e.sessionCapMs activityAt keepaliveAt forwards)

/-- `POST /api/workspaces/{id}/keepalive` -/
def keepalive (row : ActivityRow) (keys : ActivityKeys) (now : Int) : ActivityKeys :=
  { keys with keepalive := some ⟨now, now + row.idleMinutes * 60000⟩ }

/-- `sweepExpiredKv` -/
def sweepExpiredKv (keys : ActivityKeys) (now : Int) : ActivityKeys where
  activity := keys.activity.filter (now < ·.expiresAt)
  keepalive := keys.keepalive.filter (now < ·.expiresAt)
  busy := keys.busy.filter (now < ·.expiresAt)
  health := keys.health.filter (now < ·.expiresAt)
  cpu := keys.cpu.filter (now < ·.expiresAt)

/-- What `stepRecordSandboxSession` writes of the activity columns. -/
def recordSandboxSession (row : ActivityRow) (state : WorkspaceState) (stateReason : Option String) (now : Int) :
    ActivityRow := { row with state, stateReason, sessionStartedAt := some now, lastActiveAt := now, updatedAt := now }

/-! ## The sweep -/

/-- What a pass finds besides the row and the keys: whether its budget is used up, whether the platform knows the
VM as gone, and whether an editor session is open. -/
structure SweepView where
  overBudget : Bool
  vmGone : Bool
  attached : Bool

inductive SweepDecision where
  | skip | lost | abuse | idle | restart | cap | keep
  deriving DecidableEq, Repr

/-- What the sweep does with a running workspace that no run works on. -/
def sweepRow (e : Env) (row : ActivityRow) (keys : ActivityKeys) (view : SweepView) (now : Int) : SweepDecision :=
  if view.overBudget then .skip
  else
    let activity := (KvEntry.get keys.activity now).getD 0
    let keepalive := (KvEntry.get keys.keepalive now).getD 0
    let sessionStartedAt := row.sessionStartedAt.getD now
    let lastActive := max (max (max activity keepalive) sessionStartedAt) row.lastActiveAt
    if (KvEntry.get keys.health now).isNone && decide (pingLostMs < now - row.updatedAt) && view.vmGone then .lost
    else if cpuStrikes ≤ (KvEntry.get keys.cpu now).getD 0 then .abuse
    else if row.thresholdMs ≤ now - lastActive ∧ (KvEntry.get keys.busy now).isNone then .idle
    else if e.sessionCapMs - capLeadMs ≤ now - sessionStartedAt then
      if view.attached || decide (now - max keepalive activity ≤ capRestartRecentMs) then .restart else .cap
    else .keep

end Zedspaces.Web
