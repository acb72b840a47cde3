/-
A tenant's VM cannot keep itself alive. The activity pings of a workspace are handled one statement at a time, any
number of them at once, between whatever else happens to the row and the keys; what they report is the tenant's own
word. No instant that a ping can leave behind lies above a ceiling that only time and the control plane raise
(`Tenancy.ceiling`), and in a VM session that nobody attends it stops an hour after the session's start
(`tenant_idle_bound`).
-/
import Zedspaces.Lib.Processes
import Zedspaces.Web.Activity

namespace Zedspaces.Web

open Lib Lib.System
open Lifecycle (WorkspaceState)

/-! ## A ping, statement by statement -/

/-- What a ping writes into the row. -/
structure ActivityPatch where
  stateReason : Option (Option String)
  lastActiveAt : Option Int

def activityPatch (row : ActivityRow) (report : ActivityReport) (now activityAt : Int) : ActivityPatch :=
  let reason := if isBusy row report now then some ("boot:" ++ report.phase.name) else none
  { stateReason := if row.state = .running ∧ row.stateReason ≠ reason then some reason else none
    lastActiveAt :=
      if lastActiveWriteMs < activityAt - row.lastActiveAt then some (min activityAt (now + clockSkewMs)) else none }

def ActivityPatch.apply (patch : ActivityPatch) (now : Int) (row : ActivityRow) : ActivityRow :=
  { row with
    stateReason := patch.stateReason.getD row.stateReason
    lastActiveAt := patch.lastActiveAt.getD row.lastActiveAt
    updatedAt := if patch.stateReason.isSome || patch.lastActiveAt.isSome then now else row.updatedAt }

/-- The row as the ping read it is what its patch was made for. -/
theorem activityPatch_apply (row : ActivityRow) (report : ActivityReport) (now activityAt : Int) :
    (activityPatch row report now activityAt).apply now row = syncWorkspaceRow row report now activityAt := by
  unfold activityPatch ActivityPatch.apply syncWorkspaceRow
  dsimp only
  generalize (if isBusy row report now then some ("boot:" ++ report.phase.name) else none) = reason
  by_cases hreason : row.state = .running ∧ row.stateReason ≠ reason <;>
    by_cases hactive : lastActiveWriteMs < activityAt - row.lastActiveAt <;> simp [hreason, hactive]

/-- The activity key, set at `clock`. -/
def noteActivity (row : ActivityRow) (activityAt clock : Int) (keys : ActivityKeys) : ActivityKeys :=
  { keys with activity := some ⟨activityAt, clock + max pingTtlMs (2 * row.idleMinutes * 60000)⟩ }

/-- The other keys that a ping writes, set at `clock`. -/
def noteHealth (row : ActivityRow) (report : ActivityReport) (attached : Bool) (now clock : Int) (keys : ActivityKeys) :
    ActivityKeys :=
  { keys with
    busy := if isBusy row report now then some ⟨report.phase, clock + pingTtlMs⟩ else none
    health := some ⟨now, clock + pingTtlMs⟩
    cpu := match report.cpuBusyPct with
      | none => keys.cpu
      | some cpu =>
        if !attached && !isBusy row report now && decide (80 < cpu) then incr keys.cpu cpuStrikeTtlMs clock else none }

/-- The clock, the workspace's row and keys, and whether an editor session is open. `alone` notes that since the last
VM session began no editor session was open, nobody asked for a keepalive, and no report was taken in that had been
sent before the workspace had any VM session. -/
structure Tenancy where
  now : Int
  row : ActivityRow
  keys : ActivityKeys
  attached : Bool
  alone : Bool

/-- A ping on its way: the row it read, its report, its clock, whether it found an editor session open, and its
activity instant. -/
inductive PingPc where
  | loaded (row : ActivityRow) (report : ActivityReport)
  | dated (row : ActivityRow) (report : ActivityReport) (now : Int)
  | informed (row : ActivityRow) (report : ActivityReport) (now : Int) (attached : Bool)
  | judged (row : ActivityRow) (report : ActivityReport) (now : Int) (attached : Bool) (activityAt : Int)
  | noted (row : ActivityRow) (report : ActivityReport) (now : Int) (attached : Bool) (activityAt : Int)
  | keyed (row : ActivityRow) (report : ActivityReport) (now activityAt : Int)
  | synced (row : ActivityRow) (report : ActivityReport) (now activityAt : Int)
  | answered (row : ActivityRow) (directive : ActivityDirective)
  | failed

/-- What else happens to the workspace. -/
inductive TenancyEvent where
  | advance (ms : Nat)
  | startSession (state : WorkspaceState) (reason : Option String)
  | setState (state : WorkspaceState) (reason : Option String)
  | setIdleMinutes (minutes : Int)
  | keepalive
  | openSession
  | closeSessions
  | expireKeys

/-- One statement of a ping; `forwards` is what the ping finds in the workspace's forwards. -/
def PingPc.next (e : Env) (w : Tenancy) (forwards : List ForwardView) : PingPc → Option (Tenancy × PingPc)
  | .loaded row report =>
    some ({ w with alone := w.alone && row.sessionStartedAt.isSome }, .dated row report w.now)
  | .dated row report now => some (w, .informed row report now w.attached)
  | .informed row report now attached =>
    -- a key is read by the clock of the statement
    some (w, .judged row report now attached (activityInstant row report attached now (sweepExpiredKv w.keys w.now)))
  | .judged row report now attached activityAt =>
    some ({ w with keys := noteActivity row activityAt w.now w.keys }, .noted row report now attached activityAt)
  | .noted row report now attached activityAt =>
    some ({ w with keys := noteHealth row report attached now w.now w.keys }, .keyed row report now activityAt)
  | .keyed row report now activityAt =>
    some ({ w with row := (activityPatch row report now activityAt).apply now w.row }, .synced row report now activityAt)
  | .synced row report now activityAt =>
    let keepaliveAt := (KvEntry.get w.keys.keepalive w.now).getD 0
    some (w, .answered row (directiveFor row report now e.sessionCapMs activityAt keepaliveAt forwards))
  | .answered _ _ => none
  | .failed => none

def Tenancy.apply (w : Tenancy) : TenancyEvent → Tenancy
  | .advance ms => { w with now := w.now + ms }
  | .startSession state reason =>
    { w with row := recordSandboxSession w.row state reason w.now, alone := !w.attached }
  | .setState state stateReason => { w with row := { w.row with state, stateReason, updatedAt := w.now } }
  | .setIdleMinutes idleMinutes => { w with row := { w.row with idleMinutes } }
  | .keepalive => { w with keys := Web.keepalive w.row w.keys w.now, alone := false }
  | .openSession => { w with attached := true, alone := false }
  | .closeSessions => { w with attached := false }
  | .expireKeys => { w with keys := sweepExpiredKv w.keys w.now }

/-- Pings arrive with any report; each reads the row first. -/
def pings (e : Env) : Machine Tenancy PingPc ActivityReport (List ForwardView) TenancyEvent where
  accept report w := some (w, .loaded w.row report)
  next _ pc forwards w := (pc.next e w forwards).map fun (w, pc) => (w, pc, none)
  halt _ := some .failed
  env event w := w.apply event

/-- A workspace from its creation on. -/
def tenancy (e : Env) : System (Table Tenancy PingPc) (Event ActivityReport (List ForwardView) TenancyEvent) :=
  (pings e).system fun w => 0 ≤ w.now ∧ w.row.sessionStartedAt = none ∧ w.row.lastActiveAt = w.now ∧
    w.keys = ⟨none, none, none, none, none⟩ ∧ w.attached = false ∧ w.alone = false

variable {e : Env} {w w' : Tenancy} {row : ActivityRow} {report : ActivityReport}

/-- A ping that nothing comes between does what `activityPing` says. -/
theorem activityPing_alone (w : Tenancy) (report : ActivityReport) (forwards : List ForwardView) :
    (fun x : Option (Tenancy × PingPc) => x.bind fun (w, pc) => pc.next e w forwards)^[7]
        (some (w, .loaded w.row report)) =
      let r := activityPing e w.row w.keys report w.attached forwards w.now
      some ({ w with row := r.1, keys := r.2.1, alone := w.alone && w.row.sessionStartedAt.isSome },
        .answered w.row r.2.2) := by
  have hget : ∀ entry : Option (KvEntry Int),
      KvEntry.get (entry.filter (w.now < ·.expiresAt)) w.now = KvEntry.get entry w.now := by
    intro entry
    simp [KvEntry.get, Option.filter_filter]
  have hinstant : activityInstant w.row report w.attached w.now (sweepExpiredKv w.keys w.now) =
      activityInstant w.row report w.attached w.now w.keys := by
    simp only [activityInstant, sweepExpiredKv, hget]
  simp only [activityPing, ← activityPatch_apply, ← hinstant]
  rfl

/-! ## The ceiling -/

/-- When the last VM session began. -/
def Tenancy.since (w : Tenancy) : Int := w.row.sessionStartedAt.getD 0

/-- No instant that a ping leaves behind lies above this. -/
def Tenancy.ceiling (w : Tenancy) : Int :=
  if w.alone then min (w.since + busyExtendsMs) (w.now + clockSkewMs) else w.now + clockSkewMs

/-- Time passes, sessions follow each other and the ceiling rises. -/
structure Tenancy.Le (w w' : Tenancy) : Prop where
  now : w.now ≤ w'.now
  since : w.since ≤ w'.since
  ceiling : w.ceiling ≤ w'.ceiling

structure Tenancy.Ok (w : Tenancy) : Prop where
  now : 0 ≤ w.now
  since : 0 ≤ w.since ∧ w.since ≤ w.now
  lastActive : w.row.lastActiveAt ≤ w.ceiling
  activity : ∀ entry, w.keys.activity = some entry → entry.value ≤ w.ceiling
  keepalive : ∀ entry, w.keys.keepalive = some entry → entry.value ≤ w.ceiling
  alone : w.alone = true → w.attached = false ∧ w.row.sessionStartedAt.isSome = true

theorem Tenancy.ceiling_le (w : Tenancy) : w.ceiling ≤ w.now + clockSkewMs := by
  unfold Tenancy.ceiling
  split <;> omega

theorem Tenancy.Ok.ceiling_nonneg (h : w.Ok) : 0 ≤ w.ceiling := by
  have hnow := h.now
  have hsince := h.since
  unfold Tenancy.ceiling busyExtendsMs clockSkewMs
  split <;> omega

/-- While an editor session is open only the clock bounds. -/
theorem Tenancy.Ok.ceiling_of_attached (h : w.Ok) (hattached : w.attached = true) : w.ceiling = w.now + clockSkewMs := by
  have hnot : w.alone = false := by
    by_contra halone
    have := (h.alone (by simpa using halone)).1
    rw [hattached] at this
    cases this
  rw [Tenancy.ceiling, hnot]
  rfl

/-! ## What a ping may hold -/

/-- The row a ping has read, at most as far on as the row is. -/
structure Tenancy.Read (w : Tenancy) (row : ActivityRow) : Prop where
  lastActive : row.lastActiveAt ≤ w.ceiling
  since : row.sessionStartedAt.getD 0 ≤ w.since

/-- The clock a ping has read; without a session start in its row the ceiling is above it. -/
structure Tenancy.Dated (w : Tenancy) (row : ActivityRow) (now : Int) : Prop extends w.Read row where
  before : now ≤ w.now
  unstarted : row.sessionStartedAt = none → now ≤ w.ceiling

/-- What a ping at `pc` may hold. -/
def PingPc.Ok (pc : PingPc) (w : Tenancy) : Prop :=
  match pc with
  | .loaded row _ => w.Read row
  | .dated row _ now => w.Dated row now
  | .informed row _ now attached => w.Dated row now ∧ (attached = true → now + clockSkewMs ≤ w.ceiling)
  | .judged row _ now _ activityAt | .noted row _ now _ activityAt | .keyed row _ now activityAt
  | .synced row _ now activityAt => w.Dated row now ∧ activityAt ≤ w.ceiling
  | .answered row directive => directive.idleStopAt ≤ w.ceiling + row.thresholdMs
  | .failed => True

theorem Tenancy.Read.mono (h : w.Read row) (hle : w.Le w') : w'.Read row :=
  ⟨h.lastActive.trans hle.ceiling, h.since.trans hle.since⟩

theorem Tenancy.Dated.mono {now : Int} (h : w.Dated row now) (hle : w.Le w') : w'.Dated row now :=
  ⟨h.toRead.mono hle, h.before.trans hle.now, fun hnone => (h.unstarted hnone).trans hle.ceiling⟩

theorem PingPc.Ok.mono {pc : PingPc} (h : pc.Ok w) (hle : w.Le w') : pc.Ok w' := by
  have hceiling := hle.ceiling
  cases pc with
  | loaded row report => exact Tenancy.Read.mono h hle
  | dated row report now => exact Tenancy.Dated.mono h hle
  | informed row report now attached => exact ⟨h.1.mono hle, fun ha => (h.2 ha).trans hceiling⟩
  | judged row report now attached activityAt => exact ⟨h.1.mono hle, h.2.trans hceiling⟩
  | noted row report now attached activityAt => exact ⟨h.1.mono hle, h.2.trans hceiling⟩
  | keyed row report now activityAt => exact ⟨h.1.mono hle, h.2.trans hceiling⟩
  | synced row report now activityAt => exact ⟨h.1.mono hle, h.2.trans hceiling⟩
  | answered row directive =>
    have hstop : directive.idleStopAt ≤ w.ceiling + row.thresholdMs := h
    show directive.idleStopAt ≤ w'.ceiling + row.thresholdMs
    omega
  | failed => trivial

/-- A ping counts as busy only below the ceiling. -/
theorem Tenancy.Dated.now_le {now : Int} (h : w.Dated row now) (hbusy : isBusy row report now = true) :
    now ≤ w.ceiling := by
  cases hstarted : row.sessionStartedAt with
  | none => exact h.unstarted hstarted
  | some started =>
    have hwithin : now - started ≤ busyExtendsMs := by
      have hwithin := of_decide_eq_true (Bool.and_eq_true_iff.1 hbusy).2
      rwa [hstarted, Option.getD_some] at hwithin
    have hsince : started ≤ w.since := by
      have hsince := h.since
      rwa [hstarted, Option.getD_some] at hsince
    have hnow := h.before
    have hskew : clockSkewMs = 30000 := rfl
    unfold Tenancy.ceiling
    split <;> omega

theorem Tenancy.Ok.since_le_ceiling (h : w.Ok) : w.since ≤ w.ceiling := by
  have hsince := h.since
  have hskew : clockSkewMs = 30000 := rfl
  have hbusy : busyExtendsMs = 3600000 := rfl
  unfold Tenancy.ceiling
  split <;> omega

/-- What is read of a key lies below the ceiling if what is stored does. -/
theorem Tenancy.Ok.getD_le (h : w.Ok) {entry : Option (KvEntry Int)} (hentry : ∀ x, entry = some x → x.value ≤ w.ceiling)
    (now : Int) : (KvEntry.get entry now).getD 0 ≤ w.ceiling := by
  cases hget : KvEntry.get entry now with
  | none => exact h.ceiling_nonneg
  | some v =>
    obtain ⟨x, hx, -, rfl⟩ := KvEntry.get_eq_some.1 hget
    exact hentry x hx

/-- The activity instant of a ping, for any report. -/
theorem Tenancy.Ok.activityInstant_le {now : Int} {attached : Bool} (h : w.Ok) (hdated : w.Dated row now)
    (hattached : attached = true → now + clockSkewMs ≤ w.ceiling) :
    activityInstant row report attached now (sweepExpiredKv w.keys w.now) ≤ w.ceiling := by
  have hprevious : (KvEntry.get (sweepExpiredKv w.keys w.now).activity now).getD 0 ≤ w.ceiling :=
    h.getD_le (fun x hx => h.activity x (Option.filter_eq_some_iff.1 hx).1) now
  have hfloor := hdated.since.trans h.since_le_ceiling
  have hlast := hdated.lastActive
  unfold activityInstant
  dsimp only
  split
  · next hbusy => exact hdated.now_le hbusy
  · split
    · have := hattached rfl
      omega
    · omega

/-- The deadline that a ping is answered with. -/
theorem Tenancy.Ok.directive_le {now activityAt : Int} {sessionCapMs : Int} {forwards : List ForwardView} (h : w.Ok)
    (hdated : w.Dated row now) (hactivity : activityAt ≤ w.ceiling) :
    (directiveFor row report now sessionCapMs activityAt ((KvEntry.get w.keys.keepalive w.now).getD 0)
      forwards).idleStopAt ≤ w.ceiling + row.thresholdMs := by
  have hkeepalive := h.getD_le h.keepalive w.now
  have hsince := hdated.since.trans h.since_le_ceiling
  have hlast := hdated.lastActive
  have hbusy : (if isBusy row report now then now else 0) ≤ w.ceiling := by
    split
    · next hbusy => exact hdated.now_le hbusy
    · exact h.ceiling_nonneg
  have hmax : Web.lastActive row report now activityAt ((KvEntry.get w.keys.keepalive w.now).getD 0) ≤ w.ceiling := by
    unfold Web.lastActive
    exact max_le (max_le (max_le (max_le hactivity hkeepalive) hsince) hbusy) hlast
  exact Int.add_le_add_right hmax row.thresholdMs

/-- The row after a ping's patch. -/
theorem patched_le {now activityAt : Int} (hrow : w.row.lastActiveAt ≤ w.ceiling) (hactivity : activityAt ≤ w.ceiling) :
    ((activityPatch row report now activityAt).apply now w.row).lastActiveAt ≤ w.ceiling := by
  unfold activityPatch ActivityPatch.apply
  dsimp only
  split
  · show min activityAt (now + clockSkewMs) ≤ w.ceiling
    omega
  · exact hrow

/-! ## Steps -/

theorem Tenancy.Le.refl (w : Tenancy) : w.Le w := ⟨le_rfl, le_rfl, le_rfl⟩

/-- Whatever ends the ghost's note raises the ceiling. -/
theorem Tenancy.ceiling_le_of_alone {alone : Bool} (halone : alone = true → w.alone = true) :
    w.ceiling ≤ ({ w with alone } : Tenancy).ceiling := by
  cases alone with
  | false => exact w.ceiling_le
  | true =>
    show w.ceiling ≤ min (w.since + busyExtendsMs) (w.now + clockSkewMs)
    rw [Tenancy.ceiling, halone rfl]
    exact le_rfl

/-- The world with other keys below the ceiling. -/
theorem Tenancy.Ok.withKeys (h : w.Ok) {keys : ActivityKeys} (hactivity : ∀ x, keys.activity = some x → x.value ≤ w.ceiling)
    (hkeepalive : ∀ x, keys.keepalive = some x → x.value ≤ w.ceiling) : ({ w with keys } : Tenancy).Ok where
  now := h.now
  since := h.since
  lastActive := h.lastActive
  activity := hactivity
  keepalive := hkeepalive
  alone := h.alone

/-- The world with the note ended, perhaps. -/
theorem Tenancy.Ok.withAlone (h : w.Ok) (alone : Bool) (halone : alone = true → w.alone = true) :
    ({ w with alone } : Tenancy).Ok ∧ w.Le { w with alone } := by
  have hceiling := w.ceiling_le_of_alone halone
  refine ⟨⟨h.now, h.since, h.lastActive.trans hceiling, ?_, ?_, fun ha => h.alone (halone ha)⟩, le_rfl, le_rfl, hceiling⟩
  · intro x hx
    exact (h.activity x hx).trans hceiling
  · intro x hx
    exact (h.keepalive x hx).trans hceiling

/-- A statement of a ping raises nothing above the ceiling. -/
theorem Tenancy.Ok.next {pc pc' : PingPc} {forwards : List ForwardView} (h : w.Ok) (hpc : pc.Ok w)
    (hnext : pc.next e w forwards = some (w', pc')) : w'.Ok ∧ w.Le w' ∧ pc'.Ok w' := by
  cases pc with
  | loaded row report =>
    cases hnext
    have hsome : (w.alone && row.sessionStartedAt.isSome) = true → w.alone = true := fun ha => (Bool.and_eq_true_iff.1 ha).1
    obtain ⟨hok, hle⟩ := h.withAlone _ hsome
    have hread : w.Read row := hpc
    refine ⟨hok, hle, hread.mono hle, le_rfl, fun hnone => ?_⟩
    show w.now ≤ Tenancy.ceiling { w with alone := w.alone && row.sessionStartedAt.isSome }
    have hskew : clockSkewMs = 30000 := rfl
    rw [hnone, Option.isSome_none, Bool.and_false]
    show w.now ≤ w.now + clockSkewMs
    omega
  | dated row report now =>
    cases hnext
    have hdated : w.Dated row now := hpc
    refine ⟨h, .refl w, hdated, fun hattached => ?_⟩
    have hnow := hdated.before
    rw [h.ceiling_of_attached hattached]
    omega
  | informed row report now attached =>
    cases hnext
    exact ⟨h, .refl w, hpc.1, h.activityInstant_le hpc.1 hpc.2⟩
  | judged row report now attached activityAt =>
    cases hnext
    refine ⟨h.withKeys ?_ h.keepalive, ⟨le_rfl, le_rfl, le_rfl⟩, hpc.1.mono ⟨le_rfl, le_rfl, le_rfl⟩, hpc.2⟩
    rintro x ⟨⟩
    exact hpc.2
  | noted row report now attached activityAt =>
    cases hnext
    exact ⟨h.withKeys h.activity h.keepalive, ⟨le_rfl, le_rfl, le_rfl⟩, hpc.1.mono ⟨le_rfl, le_rfl, le_rfl⟩, hpc.2⟩
  | keyed row report now activityAt =>
    cases hnext
    exact ⟨⟨h.now, h.since, patched_le h.lastActive hpc.2, h.activity, h.keepalive, h.alone⟩, ⟨le_rfl, le_rfl, le_rfl⟩,
      hpc.1.mono ⟨le_rfl, le_rfl, le_rfl⟩, hpc.2⟩
  | synced row report now activityAt =>
    cases hnext
    exact ⟨h, .refl w, h.directive_le hpc.1 hpc.2⟩
  | answered row directive => cases hnext
  | failed => cases hnext

/-- A new VM session raises the ceiling to its own start and more. -/
theorem Tenancy.Ok.startSession (h : w.Ok) (state : WorkspaceState) (reason : Option String) :
    (w.apply (.startSession state reason)).Ok ∧ w.Le (w.apply (.startSession state reason)) := by
  have hskew : clockSkewMs = 30000 := rfl
  have hbusy : busyExtendsMs = 3600000 := rfl
  have hceiling : (w.apply (.startSession state reason)).ceiling = w.now + clockSkewMs := by
    show (if !w.attached then min (w.now + busyExtendsMs) (w.now + clockSkewMs) else w.now + clockSkewMs) = _
    split <;> omega
  have hrise : w.ceiling ≤ (w.apply (.startSession state reason)).ceiling := hceiling ▸ w.ceiling_le
  refine ⟨⟨h.now, ⟨h.now, le_rfl⟩, ?_, fun x hx => (h.activity x hx).trans hrise,
    fun x hx => (h.keepalive x hx).trans hrise, fun ha => ⟨?_, rfl⟩⟩, le_rfl, h.since.2, hrise⟩
  · rw [hceiling]
    show w.now ≤ w.now + clockSkewMs
    omega
  · have hnot : (!w.attached) = true := ha
    show w.attached = false
    simpa using hnot

/-- Nor does anything else that happens to the workspace. -/
theorem Tenancy.Ok.apply (h : w.Ok) (event : TenancyEvent) : (w.apply event).Ok ∧ w.Le (w.apply event) := by
  cases event with
  | advance ms =>
    have hrise : w.ceiling ≤ (w.apply (.advance ms)).ceiling := by
      show (if w.alone then min (w.since + busyExtendsMs) (w.now + clockSkewMs) else w.now + clockSkewMs) ≤
        if w.alone then min (w.since + busyExtendsMs) (w.now + ms + clockSkewMs) else w.now + ms + clockSkewMs
      split <;> omega
    have hnow : w.now ≤ w.now + ms := by omega
    exact ⟨⟨h.now.trans hnow, ⟨h.since.1, h.since.2.trans hnow⟩, h.lastActive.trans hrise,
      fun x hx => (h.activity x hx).trans hrise, fun x hx => (h.keepalive x hx).trans hrise, h.alone⟩, hnow, le_rfl, hrise⟩
  | startSession state reason => exact h.startSession state reason
  | setState state reason =>
    exact ⟨⟨h.now, h.since, h.lastActive, h.activity, h.keepalive, h.alone⟩, le_rfl, le_rfl, le_rfl⟩
  | setIdleMinutes minutes =>
    exact ⟨⟨h.now, h.since, h.lastActive, h.activity, h.keepalive, h.alone⟩, le_rfl, le_rfl, le_rfl⟩
  | keepalive =>
    obtain ⟨hok, hle⟩ := h.withAlone false nofun
    refine ⟨hok.withKeys hok.activity ?_, hle.now, hle.since, hle.ceiling⟩
    rintro x ⟨⟩
    show w.now ≤ w.now + clockSkewMs
    have hskew : clockSkewMs = 30000 := rfl
    omega
  | openSession =>
    obtain ⟨hok, hle⟩ := h.withAlone false nofun
    exact ⟨⟨hok.now, hok.since, hok.lastActive, hok.activity, hok.keepalive, nofun⟩, hle.now, hle.since, hle.ceiling⟩
  | closeSessions =>
    exact ⟨⟨h.now, h.since, h.lastActive, h.activity, h.keepalive, fun ha => ⟨rfl, (h.alone ha).2⟩⟩, le_rfl, le_rfl, le_rfl⟩
  | expireKeys =>
    refine ⟨h.withKeys ?_ ?_, le_rfl, le_rfl, le_rfl⟩
    · intro x hx
      exact h.activity x (Option.filter_eq_some_iff.1 hx).1
    · intro x hx
      exact h.keepalive x (Option.filter_eq_some_iff.1 hx).1

theorem pings_next {pc pc' : PingPc} {n : Nat} {forwards : List ForwardView} {st : Option (Nat × PingPc)}
    (h : (pings e).next n pc forwards w = some (w', pc', st)) : pc.next e w forwards = some (w', pc') ∧ st = none := by
  obtain ⟨⟨w₁, pc₁⟩, hnext, hstep⟩ := Option.map_eq_some_iff.1 h
  cases hstep
  exact ⟨hnext, rfl⟩

/-- No ping and nothing else leads above the ceiling. -/
theorem outline_ceiling (e : Env) : (pings e).Outline (fun w => 0 ≤ w.now ∧ w.row.sessionStartedAt = none ∧
    w.row.lastActiveAt = w.now ∧ w.keys = ⟨none, none, none, none, none⟩ ∧ w.attached = false ∧ w.alone = false) free
    (fun s => s.world.Ok) (fun _ pc s => pc.Ok s.world) where
  init w hw := by
    obtain ⟨hnow, hstarted, hactive, hkeys, -, halone⟩ := hw
    have hsince : w.since = 0 := by rw [Tenancy.since, hstarted]; rfl
    have hceiling : w.ceiling = w.now + clockSkewMs := by rw [Tenancy.ceiling, halone]; rfl
    have hskew : clockSkewMs = 30000 := rfl
    refine ⟨hnow, by show 0 ≤ w.since ∧ w.since ≤ w.now; omega, ?_, ?_, ?_, ?_⟩
    · show w.row.lastActiveAt ≤ w.ceiling
      omega
    · intro x hx
      rw [hkeys] at hx
      cases hx
    · intro x hx
      rw [hkeys] at hx
      cases hx
    · intro ha
      rw [halone] at ha
      cases ha
  accept s n report w pc hs _ _ haccept := by
    cases haccept
    exact ⟨⟨hs.whole, fun k q _ hq => hs.each k q hq⟩, hs.whole.lastActive, le_rfl⟩
  next s n forwards pc w pc' st hs _ hpc hnext _ := by
    obtain ⟨hstep, rfl⟩ := pings_next hnext
    obtain ⟨hok, hle, hpc'⟩ := hs.whole.next (hs.each n pc hpc) hstep
    exact ⟨⟨hok, fun k q _ hq => (hs.each k q hq).mono hle⟩, hpc', by rintro m q ⟨⟩⟩
  halt s n pc pc' hs _ _ hhalt := by
    cases hhalt
    exact ⟨⟨hs.whole, fun k q _ hq => hs.each k q hq⟩, trivial⟩
  env s event hs _ := by
    obtain ⟨hok, hle⟩ := hs.whole.apply event
    exact ⟨hok, fun k q hq => (hs.each k q hq).mono hle⟩

/-- In a VM session with no editor session open and no keepalive, whatever the pings report, each deadline a ping is
answered with is at most an hour and the idle minutes after the session's start. -/
theorem tenant_idle_bound (e : Env) (s : Table Tenancy PingPc) (h : (tenancy e).Reach free s) (n : Nat)
    (row : ActivityRow) (directive : ActivityDirective) (hp : s.procs n = some (.answered row directive))
    (halone : s.world.alone = true) : ∃ started, s.world.row.sessionStartedAt = some started ∧
      directive.idleStopAt ≤ started + 60 * 60000 + row.idleMinutes * 60000 := by
  obtain ⟨hok, heach⟩ := (outline_ceiling e).holds h
  obtain ⟨started, hstarted⟩ := Option.isSome_iff_exists.1 (hok.alone halone).2
  have hanswer : directive.idleStopAt ≤ s.world.ceiling + row.thresholdMs := heach n _ hp
  have hceiling : s.world.ceiling ≤ started + busyExtendsMs := by
    rw [Tenancy.ceiling, halone, if_pos rfl, Tenancy.since, hstarted, Option.getD_some]
    omega
  refine ⟨started, hstarted, ?_⟩
  show directive.idleStopAt ≤ started + busyExtendsMs + row.thresholdMs
  omega

/-- A workspace at its creation, with five idle minutes. -/
def sampleTenancy : Tenancy :=
  ⟨1000000, ⟨.creating, none, 5, none, 1000000, 1000000⟩, ⟨none, none, none, none, none⟩, false, false⟩

/-- The bound is met: a report sent a full hour after the session's start that names a boot still going on. -/
theorem tenant_idle_bound_sample : ∃ (s : Table Tenancy PingPc) (row : ActivityRow) (directive : ActivityDirective),
    s.procs 0 = some (.answered row directive) ∧ directive.idleStopAt = 1000000 + 60 * 60000 + 5 * 60000 ∧
      ∃ started, s.world.row.sessionStartedAt = some started ∧
        directive.idleStopAt ≤ started + 60 * 60000 + row.idleMinutes * 60000 := by
  have hinit : (tenancy sampleEnv).init ⟨sampleTenancy, []⟩ := ⟨⟨by decide, rfl, rfl, rfl, rfl, rfl⟩, rfl⟩
  obtain ⟨s, hr, halone, hanswer⟩ := exists_reach_of_exec (S := tenancy sampleEnv)
    (fun s : Table Tenancy PingPc => s.world.alone = true ∧ (s.procs 0).any (fun
      | .answered _ d => decide (d.idleStopAt = 1000000 + 60 * 60000 + 5 * 60000)
      | _ => false) = true)
    (.env (.startSession .running none) :: .env (.advance 3600000) ::
      .arrive 0 ⟨some 9999999, true, .postCreate, none, none⟩ :: List.replicate 7 (.act 0 []))
    hinit (by decide)
  obtain ⟨pc, hpc, hdeadline⟩ := (Option.any_eq_true _ _).1 hanswer
  cases pc with
  | answered row directive =>
    exact ⟨s, row, directive, hpc, of_decide_eq_true hdeadline,
      tenant_idle_bound sampleEnv s hr 0 row directive hpc halone⟩
  | _ => cases hdeadline

end Zedspaces.Web
