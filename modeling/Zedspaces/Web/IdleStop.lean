/-
The deadline a workspace's supervisor is told and the deadline the sweep enforces. Whatever the directive's deadline
was computed from is still there when the sweep looks: in the row, or in a key that outlives the deadline. A VM
session that starts after the directive begins its own count; then the sweep leaves that session its idle minutes
(`idle_stop_after_deadline`), though a deadline told before may come later (`idle_stop_before_old_deadline`).
-/
import Zedspaces.Lib.System
import Zedspaces.Web.Activity

namespace Zedspaces.Web

open Lib Lib.System
open Lifecycle (WorkspaceState)

/-- The clock, the workspace's row and keys, the last directive its supervisor was sent, and whether a VM session
has started since. -/
structure IdleClock where
  now : Int
  row : ActivityRow
  keys : ActivityKeys
  told : Option ActivityDirective
  newSession : Bool

inductive IdleEvent where
  | advance (ms : Nat)
  | ping (report : ActivityReport) (attached : Bool) (forwards : List ForwardView)
  | keepalive
  | startSession (state : WorkspaceState) (reason : Option String)
  | expireKeys
  | sweep (view : SweepView)

def IdleClock.ping (e : Env) (s : IdleClock) (report : ActivityReport) (attached : Bool) (forwards : List ForwardView) :
    IdleClock :=
  let r := activityPing e s.row s.keys report attached forwards s.now
  { s with row := r.1, keys := r.2.1, told := some r.2.2, newSession := false }

def IdleClock.step (e : Env) (s : IdleClock) : IdleEvent → Option IdleClock
  | .advance ms => some { s with now := s.now + ms }
  | .ping report attached forwards => some (s.ping e report attached forwards)
  | .keepalive => some { s with keys := keepalive s.row s.keys s.now }
  | .startSession state reason =>
    some { s with row := recordSandboxSession s.row state reason s.now, newSession := true }
  | .expireKeys => some { s with keys := sweepExpiredKv s.keys s.now }
  | .sweep _ => some s

/-- A workspace of at least five idle minutes from its creation on. -/
def idleClock (e : Env) : System IdleClock IdleEvent where
  init s := 0 ≤ s.now ∧ 5 ≤ s.row.idleMinutes ∧ s.row.sessionStartedAt = none ∧ s.row.lastActiveAt = s.now ∧
    s.keys = ⟨none, none, none, none, none⟩ ∧ s.told = none ∧ s.newSession = false
  step := IdleClock.step e

variable {e : Env} {s s' : IdleClock} {event : IdleEvent}

/-! ## What the row and the keys remember -/

/-- Something the sweep reads says that the workspace was active at `t` or later, until `t` and the idle minutes are
over. -/
def IdleClock.Remembers (s : IdleClock) (t : Int) : Prop :=
  t ≤ s.row.lastActiveAt ∨ (∃ started, s.row.sessionStartedAt = some started ∧ t ≤ started) ∨
    (∃ entry, s.keys.activity = some entry ∧ t ≤ entry.value) ∨
    (∃ entry, s.keys.keepalive = some entry ∧ t ≤ entry.value) ∨ t + s.row.thresholdMs ≤ s.now

structure IdleClock.Ok (s : IdleClock) : Prop where
  idle : 5 ≤ s.row.idleMinutes
  now : 0 ≤ s.now
  started : ∀ t, s.row.sessionStartedAt = some t → t ≤ s.now
  rowActive : 0 ≤ s.row.lastActiveAt ∧ s.row.lastActiveAt ≤ s.now + clockSkewMs
  activity : ∀ entry, s.keys.activity = some entry →
    entry.value ≤ s.now + clockSkewMs ∧ entry.value + s.row.thresholdMs ≤ entry.expiresAt
  keepalive : ∀ entry, s.keys.keepalive = some entry →
    entry.value ≤ s.now ∧ entry.value + s.row.thresholdMs = entry.expiresAt
  told : ∀ d, s.told = some d → s.newSession = false → s.Remembers (d.idleStopAt - s.row.thresholdMs)
  session : s.newSession = true → s.row.sessionStartedAt.isSome = true

theorem IdleClock.Ok.threshold (h : s.Ok) : 300000 ≤ s.row.thresholdMs := by
  have := h.idle
  unfold ActivityRow.thresholdMs
  omega

/-- The session's start, where one counts. -/
theorem IdleClock.Ok.floor (h : s.Ok) : s.row.sessionStartedAt.getD 0 ≤ s.now := by
  cases hs : s.row.sessionStartedAt with
  | none => exact h.now
  | some t => exact h.started t hs

/-! ## Steps -/

/-- A ping's activity instant leads the clock by no more than the skew. -/
theorem IdleClock.Ok.activityInstant_le (h : s.Ok) (report : ActivityReport) (attached : Bool) :
    activityInstant s.row report attached s.now s.keys ≤ s.now + clockSkewMs := by
  have hskew : (0 : Int) ≤ clockSkewMs := by decide
  have hprevious : (KvEntry.get s.keys.activity s.now).getD 0 ≤ s.now + clockSkewMs := by
    cases hget : KvEntry.get s.keys.activity s.now with
    | none =>
      have := h.now
      show 0 ≤ s.now + clockSkewMs
      omega
    | some v =>
      obtain ⟨entry, hentry, -, rfl⟩ := KvEntry.get_eq_some.1 hget
      exact (h.activity entry hentry).1
  have hfloor := h.floor
  have hlast := h.rowActive.2
  unfold activityInstant
  dsimp only
  split
  · omega
  · split <;> omega

/-- The row keeps its last activity or moves it forward. -/
theorem le_syncWorkspaceRow {row : ActivityRow} {now : Int} (h : row.lastActiveAt ≤ now + clockSkewMs)
    (report : ActivityReport) (activityAt : Int) :
    row.lastActiveAt ≤ (syncWorkspaceRow row report now activityAt).lastActiveAt ∧
      (syncWorkspaceRow row report now activityAt).lastActiveAt ≤ now + clockSkewMs := by
  have hwrite : (0 : Int) ≤ lastActiveWriteMs := by decide
  unfold syncWorkspaceRow
  dsimp only
  split
  · next hpatch =>
    have := of_decide_eq_true hpatch
    omega
  · omega

/-- The directive counts from the row, the ping's activity instant, the keepalive or the session's start. -/
theorem lastActive_cases {row : ActivityRow} {report : ActivityReport} {now activityAt : Int} (h : 0 ≤ row.lastActiveAt)
    (hbusy : isBusy row report now = true → activityAt = now) (keepaliveAt : Int) :
    lastActive row report now activityAt keepaliveAt ≤ row.lastActiveAt ∨
      lastActive row report now activityAt keepaliveAt ≤ activityAt ∨
      lastActive row report now activityAt keepaliveAt ≤ keepaliveAt ∨
      ∃ started, row.sessionStartedAt = some started ∧ lastActive row report now activityAt keepaliveAt ≤ started := by
  have hbusy : (if isBusy row report now then now else 0) ≤ activityAt ∨
      (if isBusy row report now then now else 0) ≤ row.lastActiveAt := by
    split
    · next hb => exact .inl (hbusy hb).ge
    · exact .inr h
  unfold lastActive
  generalize (if isBusy row report now then now else 0) = busyAt at hbusy
  cases hstarted : row.sessionStartedAt with
  | none =>
    rw [Option.getD_none]
    omega
  | some started =>
    rw [Option.getD_some]
    by_cases hle : max (max (max (max activityAt keepaliveAt) started) busyAt) row.lastActiveAt ≤ started
    · exact .inr (.inr (.inr ⟨started, rfl, hle⟩))
    · omega

/-- What the directive counts from is remembered. -/
theorem IdleClock.Ok.remembers_ping (h : s.Ok) (report : ActivityReport) (attached : Bool) (forwards : List ForwardView) :
    (s.ping e report attached forwards).Remembers (lastActive s.row report s.now
      (activityInstant s.row report attached s.now s.keys) ((KvEntry.get s.keys.keepalive s.now).getD 0)) := by
  have hbusy : isBusy s.row report s.now = true → activityInstant s.row report attached s.now s.keys = s.now :=
    fun hb => if_pos hb
  rcases lastActive_cases h.rowActive.1 hbusy ((KvEntry.get s.keys.keepalive s.now).getD 0) with
    hle | hle | hle | ⟨t, ht, hle⟩
  · exact .inl (hle.trans (le_syncWorkspaceRow h.rowActive.2 report _).1)
  · exact .inr (.inr (.inl ⟨_, rfl, hle⟩))
  · cases hget : KvEntry.get s.keys.keepalive s.now with
    | none =>
      rw [hget] at hle
      exact .inl ((hle.trans h.rowActive.1).trans (le_syncWorkspaceRow h.rowActive.2 report _).1)
    | some v =>
      obtain ⟨entry, hentry, -, rfl⟩ := KvEntry.get_eq_some.1 hget
      rw [hget] at hle
      exact .inr (.inr (.inr (.inl ⟨entry, hentry, hle⟩)))
  · exact .inr (.inl ⟨t, ht, hle⟩)

theorem IdleClock.Ok.ping (h : s.Ok) (report : ActivityReport) (attached : Bool) (forwards : List ForwardView) :
    (s.ping e report attached forwards).Ok := by
  have hrow := le_syncWorkspaceRow h.rowActive.2 report (activityInstant s.row report attached s.now s.keys)
  refine ⟨h.idle, h.now, h.started, ⟨h.rowActive.1.trans hrow.1, hrow.2⟩, ?_, h.keepalive, ?_, ?_⟩
  · rintro _ ⟨⟩
    have hactivity := h.activityInstant_le report attached
    have hidle := h.idle
    have hskew : clockSkewMs = 30000 := rfl
    refine ⟨hactivity, ?_⟩
    show activityInstant s.row report attached s.now s.keys + s.row.idleMinutes * 60000 ≤
      s.now + max pingTtlMs (2 * s.row.idleMinutes * 60000)
    omega
  · rintro _ ⟨⟩ -
    have hremembers := h.remembers_ping (e := e) report attached forwards
    show (s.ping e report attached forwards).Remembers (lastActive _ _ _ _ _ + s.row.thresholdMs - s.row.thresholdMs)
    rw [Int.add_sub_cancel]
    exact hremembers
  · rintro ⟨⟩

theorem IdleClock.Remembers.later {t : Int} (h : s.Remembers t) (ms : Nat) :
    ({ s with now := s.now + ms } : IdleClock).Remembers t := by
  rcases h with h | h | h | h | h
  · exact .inl h
  · exact .inr (.inl h)
  · exact .inr (.inr (.inl h))
  · exact .inr (.inr (.inr (.inl h)))
  · refine .inr (.inr (.inr (.inr ?_)))
    show t + s.row.thresholdMs ≤ s.now + ms
    omega

/-- Expired keys are not needed any more. -/
theorem IdleClock.Ok.remembers_expire (h : s.Ok) {t : Int} (hr : s.Remembers t) :
    ({ s with keys := sweepExpiredKv s.keys s.now } : IdleClock).Remembers t := by
  rcases hr with hr | hr | ⟨entry, hentry, hle⟩ | ⟨entry, hentry, hle⟩ | hr
  · exact .inl hr
  · exact .inr (.inl hr)
  · by_cases halive : s.now < entry.expiresAt
    · refine .inr (.inr (.inl ⟨entry, ?_, hle⟩))
      exact Option.filter_eq_some_iff.2 ⟨hentry, decide_eq_true halive⟩
    · have := (h.activity entry hentry).2
      refine .inr (.inr (.inr (.inr ?_)))
      show t + s.row.thresholdMs ≤ s.now
      omega
  · by_cases halive : s.now < entry.expiresAt
    · refine .inr (.inr (.inr (.inl ⟨entry, ?_, hle⟩)))
      exact Option.filter_eq_some_iff.2 ⟨hentry, decide_eq_true halive⟩
    · have := (h.keepalive entry hentry).2
      refine .inr (.inr (.inr (.inr ?_)))
      show t + s.row.thresholdMs ≤ s.now
      omega
  · exact .inr (.inr (.inr (.inr hr)))

theorem IdleClock.Ok.remembers_keepalive (h : s.Ok) {t : Int} (hr : s.Remembers t) :
    ({ s with keys := Web.keepalive s.row s.keys s.now } : IdleClock).Remembers t := by
  rcases hr with hr | hr | hr | ⟨entry, hentry, hle⟩ | hr
  · exact .inl hr
  · exact .inr (.inl hr)
  · exact .inr (.inr (.inl hr))
  · exact .inr (.inr (.inr (.inl ⟨_, rfl, hle.trans (h.keepalive entry hentry).1⟩)))
  · exact .inr (.inr (.inr (.inr hr)))

theorem IdleClock.Ok.step (h : s.Ok) (hstep : s.step e event = some s') : s'.Ok := by
  cases event with
  | advance ms =>
    cases hstep
    refine ⟨h.idle, ?_, ?_, ⟨h.rowActive.1, ?_⟩, ?_, ?_, fun d hd hn => (h.told d hd hn).later ms, h.session⟩
    · have := h.now
      show 0 ≤ s.now + ms
      omega
    · intro t ht
      have := h.started t ht
      show t ≤ s.now + ms
      omega
    · have := h.rowActive.2
      show s.row.lastActiveAt ≤ s.now + ms + clockSkewMs
      omega
    · intro entry hentry
      have := h.activity entry hentry
      refine ⟨?_, this.2⟩
      show entry.value ≤ s.now + ms + clockSkewMs
      omega
    · intro entry hentry
      have := h.keepalive entry hentry
      refine ⟨?_, this.2⟩
      show entry.value ≤ s.now + ms
      omega
  | ping report attached forwards => cases hstep; exact h.ping report attached forwards
  | keepalive =>
    cases hstep
    refine ⟨h.idle, h.now, h.started, h.rowActive, h.activity, ?_, fun d hd hn => h.remembers_keepalive (h.told d hd hn),
      h.session⟩
    rintro _ ⟨⟩
    exact ⟨Int.le_refl _, rfl⟩
  | startSession state reason =>
    cases hstep
    have hskew : clockSkewMs = 30000 := rfl
    refine ⟨h.idle, h.now, ?_, ⟨h.now, ?_⟩, h.activity, h.keepalive, fun _ _ hn => absurd hn (by simp), fun _ => rfl⟩
    · rintro _ ⟨⟩
      exact Int.le_refl _
    · show s.now ≤ s.now + clockSkewMs
      omega
  | expireKeys =>
    cases hstep
    refine ⟨h.idle, h.now, h.started, h.rowActive, ?_, ?_, fun d hd hn => h.remembers_expire (h.told d hd hn), h.session⟩
    · intro entry hentry
      exact h.activity entry (Option.filter_eq_some_iff.1 hentry).1
    · intro entry hentry
      exact h.keepalive entry (Option.filter_eq_some_iff.1 hentry).1
  | sweep view => cases hstep; exact h

theorem ok_of_reach {G : IdleClock → IdleEvent → Prop} (h : (idleClock e).Reach G s) : s.Ok := by
  refine h.invariant (fun s hs => ?_) fun _ _ _ _ hok _ hstep => hok.step hstep
  obtain ⟨hnow, hidle, hstarted, hactive, hkeys, htold, hnew⟩ := hs
  have hskew : clockSkewMs = 30000 := rfl
  refine ⟨hidle, hnow, ?_, ⟨by omega, by omega⟩, ?_, ?_, ?_, ?_⟩
  · intro t ht; rw [hstarted] at ht; cases ht
  · intro entry hentry; rw [hkeys] at hentry; cases hentry
  · intro entry hentry; rw [hkeys] at hentry; cases hentry
  · intro d hd; rw [htold] at hd; cases hd
  · intro hn; rw [hnew] at hn; cases hn

/-! ## The sweep -/

/-- An idle stop finds the idle minutes over since everything that the sweep reads. -/
theorem sweepRow_idle {row : ActivityRow} {keys : ActivityKeys} {view : SweepView} {now : Int}
    (h : sweepRow e row keys view now = .idle) :
    row.lastActiveAt + row.thresholdMs ≤ now ∧
      (∀ t, row.sessionStartedAt = some t → t + row.thresholdMs ≤ now) ∧
      (∀ t, KvEntry.get keys.activity now = some t → t + row.thresholdMs ≤ now) ∧
      ∀ t, KvEntry.get keys.keepalive now = some t → t + row.thresholdMs ≤ now := by
  unfold sweepRow at h
  dsimp only at h
  split at h
  · cases h
  · split at h
    · cases h
    · split at h
      · cases h
      · split at h
        · next hidle =>
          have hidle := hidle.1
          refine ⟨by omega, ?_, ?_, ?_⟩
          · intro t ht; rw [ht, Option.getD_some] at hidle; omega
          · intro t ht; rw [ht, Option.getD_some] at hidle; omega
          · intro t ht; rw [ht, Option.getD_some] at hidle; omega
        · split at h
          · split at h <;> cases h
          · cases h

/-- What is remembered is the idle minutes ago when the sweep stops the workspace. -/
theorem IdleClock.Ok.idle_of_remembers (h : s.Ok) {view : SweepView} {t : Int}
    (hidle : sweepRow e s.row s.keys view s.now = .idle) (hr : s.Remembers t) : t + s.row.thresholdMs ≤ s.now := by
  obtain ⟨hrow, hstarted, hactivity, hkeepalive⟩ := sweepRow_idle hidle
  rcases hr with hle | ⟨started, hs, hle⟩ | ⟨entry, hentry, hle⟩ | ⟨entry, hentry, hle⟩ | hover
  · omega
  · have := hstarted started hs
    omega
  · by_cases halive : s.now < entry.expiresAt
    · have := hactivity entry.value (KvEntry.get_eq_some.2 ⟨entry, hentry, halive, rfl⟩)
      omega
    · have := (h.activity entry hentry).2
      omega
  · by_cases halive : s.now < entry.expiresAt
    · have := hkeepalive entry.value (KvEntry.get_eq_some.2 ⟨entry, hentry, halive, rfl⟩)
      omega
    · have := (h.keepalive entry hentry).2
      omega
  · exact hover

/-- The sweep starts no idle stop before the deadline of the last directive; where a VM session has started since,
not before that session has had its idle minutes. -/
theorem idle_stop_after_deadline (e : Env) (s : IdleClock) (h : (idleClock e).Reach free s) (view : SweepView)
    (hidle : sweepRow e s.row s.keys view s.now = .idle) (d : ActivityDirective) (hd : s.told = some d) :
    d.idleStopAt ≤ s.now ∨ s.newSession = true ∧
      ∃ started, s.row.sessionStartedAt = some started ∧ started + s.row.thresholdMs ≤ s.now := by
  have hok := ok_of_reach h
  cases hnew : s.newSession with
  | false =>
    have := hok.idle_of_remembers hidle (hok.told d hd hnew)
    exact .inl (by omega)
  | true =>
    obtain ⟨started, hstarted⟩ := Option.isSome_iff_exists.1 (hok.session hnew)
    exact .inr ⟨rfl, started, hstarted, (sweepRow_idle hidle).2.1 started hstarted⟩

/-! ## Runs -/

def sampleReport (lastInputAt : Option Int) : ActivityReport := ⟨lastInputAt, false, .ready, none, none⟩

/-- A workspace at its creation, with five idle minutes. -/
def sampleClock : IdleClock :=
  ⟨1000000, ⟨.creating, none, 5, none, 1000000, 1000000⟩, ⟨none, none, none, none, none⟩, none, false⟩

def sampleView : SweepView := ⟨false, false, true⟩

/-- A session, an input, a keepalive, and the idle stop at the deadline told. -/
theorem idle_stop_after_deadline_sample : ∃ (s : IdleClock) (d : ActivityDirective), s.told = some d ∧
    sweepRow sampleEnv s.row s.keys sampleView s.now = .idle ∧ d.idleStopAt = s.now ∧ (d.idleStopAt ≤ s.now ∨
      s.newSession = true ∧ ∃ started, s.row.sessionStartedAt = some started ∧ started + s.row.thresholdMs ≤ s.now) := by
  obtain ⟨s, hr, hidle, htold⟩ := exists_reach_of_exec (S := idleClock sampleEnv)
    (fun s : IdleClock => sweepRow sampleEnv s.row s.keys sampleView s.now = .idle ∧
      (s.told.any fun d => decide (d.idleStopAt = s.now)) = true)
    [.startSession .running none, .advance 10000, .ping (sampleReport (some 1005000)) true [], .keepalive, .advance 30000,
      .ping (sampleReport none) true [], .advance 270000, .expireKeys]
    (s := sampleClock) ⟨by decide, by decide, rfl, rfl, rfl, rfl, rfl⟩ (by decide)
  obtain ⟨d, hd, hdeadline⟩ := (Option.any_eq_true _ _).1 htold
  exact ⟨s, d, hd, hidle, of_decide_eq_true hdeadline, idle_stop_after_deadline sampleEnv s hr sampleView hidle d hd⟩

/-- An input instant ahead of the clock sets a deadline that the next VM session does not know. -/
theorem idle_stop_before_old_deadline : ¬ ∀ (e : Env) (s : IdleClock) (view : SweepView) (d : ActivityDirective),
    (idleClock e).Reach free s → sweepRow e s.row s.keys view s.now = .idle → s.told = some d → d.idleStopAt ≤ s.now := by
  intro h
  obtain ⟨s, hr, hidle, htold⟩ := exists_reach_of_exec (S := idleClock sampleEnv)
    (fun s : IdleClock => sweepRow sampleEnv s.row s.keys sampleView s.now = .idle ∧
      (s.told.any fun d => decide (s.now < d.idleStopAt)) = true)
    [.startSession .running none, .advance 100000, .ping (sampleReport (some 9999999)) true [], .advance 1000,
      .ping (sampleReport (some 0)) true [], .advance 1000, .startSession .running none, .advance 300000]
    (s := sampleClock) ⟨by decide, by decide, rfl, rfl, rfl, rfl, rfl⟩ (by decide)
  obtain ⟨d, hd, hlate⟩ := (Option.any_eq_true _ _).1 htold
  have hlate := of_decide_eq_true hlate
  have := h sampleEnv s sampleView d hr hidle hd
  omega

end Zedspaces.Web
