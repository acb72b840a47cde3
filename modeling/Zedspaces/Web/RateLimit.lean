/-
The rate limiter (`ratelimit.ts`): for each bucket the row of the admitted requests' times, pruned whenever the bucket is
asked, and gone a window after the last of them. At every moment the row shows what the history of admissions shows
within the window (`Mirrors`), so a request is admitted by the plain sliding count, and after the announced wait the
oldest of the counted admissions has left the window (`rate_limited`).
-/
import Mathlib.Data.List.Nodup
import Mathlib.Data.Int.ConditionallyCompleteOrder
import Mathlib.Order.ConditionallyCompleteLattice.Basic
import Zedspaces.Lib.Text
import Zedspaces.Lib.TtlMap
import Zedspaces.Lib.Window

namespace Zedspaces.Web

open Lib

/-- `LimitName` -/
inductive LimitName where
  | sandboxManifest | sandboxPorts | sandboxActivity | sandboxLogs | sandboxClientErrors | sandboxExtensions
  | sandboxAuthFailures | userWorkspacesCreate | userConnect | userKeepalive | userExport | userProcess
  | userClientErrors | userRepos
  deriving DecidableEq, Repr

/-- `tokens` requests per `windowSec`. -/
structure Limit where
  tokens : Nat
  windowSec : Nat
  deriving DecidableEq, Repr

namespace LimitName

/-- The names as they stand in keys. -/
def text : LimitName → Text
  | sandboxManifest => "sandbox.manifest".toList
  | sandboxPorts => "sandbox.ports".toList
  | sandboxActivity => "sandbox.activity".toList
  | sandboxLogs => "sandbox.logs".toList
  | sandboxClientErrors => "sandbox.client-errors".toList
  | sandboxExtensions => "sandbox.extensions".toList
  | sandboxAuthFailures => "sandbox.auth-failures".toList
  | userWorkspacesCreate => "user.workspaces.create".toList
  | userConnect => "user.connect".toList
  | userKeepalive => "user.keepalive".toList
  | userExport => "user.export".toList
  | userProcess => "user.process".toList
  | userClientErrors => "user.client-errors".toList
  | userRepos => "user.repos".toList

/-- `LIMITS` -/
def limits : LimitName → Limit
  | sandboxManifest => ⟨60, 60⟩
  | sandboxPorts => ⟨30, 60⟩
  | sandboxActivity => ⟨40, 60⟩
  | sandboxLogs => ⟨120, 60⟩
  | sandboxClientErrors => ⟨60, 60⟩
  | sandboxExtensions => ⟨30, 60⟩
  | sandboxAuthFailures => ⟨20, 60⟩
  | userWorkspacesCreate => ⟨10, 600⟩
  | userConnect => ⟨60, 60⟩
  | userKeepalive => ⟨30, 60⟩
  | userExport => ⟨3, 60⟩
  | userProcess => ⟨12, 60⟩
  | userClientErrors => ⟨60, 60⟩
  | userRepos => ⟨30, 60⟩

def tokens (name : LimitName) : Nat := name.limits.tokens

def windowMs (name : LimitName) : Int := name.limits.windowSec * 1000

theorem tokens_pos (name : LimitName) : 0 < name.tokens := by cases name <;> decide

theorem windowMs_nonneg (name : LimitName) : 0 ≤ name.windowMs := by cases name <;> decide

/-- All names. -/
def all : List LimitName :=
  [sandboxManifest, sandboxPorts, sandboxActivity, sandboxLogs, sandboxClientErrors, sandboxExtensions,
    sandboxAuthFailures, userWorkspacesCreate, userConnect, userKeepalive, userExport, userProcess, userClientErrors,
    userRepos]

theorem mem_all (name : LimitName) : name ∈ all := by cases name <;> decide

theorem text_inj {name name' : LimitName} (h : name.text = name'.text) : name = name' := by
  have hnodup : (all.map text).Nodup := by decide
  exact List.inj_on_of_nodup_map hnodup (mem_all name) (mem_all name') h

theorem colon_notMem_text (name : LimitName) : ':' ∉ name.text := by
  cases name <;> exact Text.notMem_literal (by decide)

end LimitName

/-- `ApiError(429, "rate_limited")` -/
structure RateLimited where
  status : Nat
  code : String
  message : String
  retryAfterSec : Int
  deriving DecidableEq, Repr

/-- `rateLimited(ms / 1000)` -/
def rateLimited (ms : Int) : RateLimited := ⟨429, "rate_limited", "Too many requests", max 1 (-(-ms / 1000))⟩

theorem le_retryAfter (ms : Int) : ms ≤ 1000 * (rateLimited ms).retryAfterSec := by
  show ms ≤ 1000 * max 1 (-(-ms / 1000))
  omega

/-- The rows of `kv` that the limiter writes; a value is the JSON text of these numbers. -/
abbrev HitsTable := TtlMap Text (List Int)

def rateKey (name : LimitName) (subject : Text) : Text := "zs:rl:".toList ++ (name.text ++ ':' :: subject)

theorem rateKey_inj {name name' : LimitName} {subject subject' : Text} (h : rateKey name subject = rateKey name' subject') :
    name = name' ∧ subject = subject' := by
  have hrest := List.append_cancel_left h
  have hsplit : Text.splitOnce ':' (name.text ++ ':' :: subject) = some (name.text, subject) :=
    Text.splitOnce_eq_some.2 ⟨rfl, name.colon_notMem_text⟩
  rw [hrest, Text.splitOnce_eq_some.2 ⟨rfl, name'.colon_notMem_text⟩] at hsplit
  obtain ⟨hname, hsubject⟩ := Prod.mk.inj (Option.some.inj hsplit)
  exact ⟨LimitName.text_inj hname.symm, hsubject.symm⟩

/-- `SELECT value FROM kv WHERE key=? AND expires_at>?` -/
def selectHits (table : HitsTable) (key : Text) (now : Int) : List Int :=
  match table key with
  | some ⟨hits, some expiresAt⟩ => if now < expiresAt then hits else []
  | _ => []

/-- `hit > now - windowMs` -/
def withinWindow (name : LimitName) (now hit : Int) : Bool := decide (now - name.windowMs < hit)

/-- `limit(name, subject)`, one write transaction. -/
def limit (name : LimitName) (subject : Text) (now : Int) (table : HitsTable) : Except RateLimited HitsTable :=
  let key := rateKey name subject
  let hits := (selectHits table key now).filter (withinWindow name now)
  if name.tokens ≤ hits.length then .error (rateLimited (hits.headD 0 + name.windowMs - now))
  else .ok (Function.update table key (some ⟨hits ++ [now], some (now + name.windowMs)⟩))

/-! ## Histories -/

/-- What happens to the table: a request, or the sweep of the expired rows. -/
inductive RateEvent where
  | request (name : LimitName) (subject : Text) (now : Int)
  | sweep (now : Int)

def RateEvent.now : RateEvent → Int
  | request _ _ now => now
  | sweep now => now

/-- The event asks the bucket. -/
def RateEvent.Asks (name : LimitName) (subject : Text) (event : RateEvent) : Prop :=
  ∃ now, event = request name subject now

/-- The table, and when which bucket has admitted a request. -/
structure RateState where
  table : HitsTable
  admissions : List ((LimitName × Text) × Int)

namespace RateState

def empty : RateState := ⟨fun _ => none, []⟩

def step (s : RateState) : RateEvent → RateState
  | .request name subject now =>
    match limit name subject now s.table with
    | .ok table => ⟨table, s.admissions ++ [((name, subject), now)]⟩
    | .error _ => s
  | .sweep now => { s with table := fun key => (s.table key).filter (·.live now) }

def run (s : RateState) (events : List RateEvent) : RateState := events.foldl step s

/-- When the bucket has admitted a request. -/
def admitted (s : RateState) (name : LimitName) (subject : Text) : List Int :=
  (s.admissions.filter fun a => a.1 = (name, subject)).map (·.2)

/-! ## The row and the history -/

variable {s : RateState} {name : LimitName} {subject : Text} {now later : Int}

theorem moves_withinWindow (name : LimitName) : Moves (withinWindow name) where
  later := by
    intro now later hit hle h
    have hlater : later - name.windowMs < hit := of_decide_eq_true h
    exact decide_eq_true (by omega)
  newer := by
    intro now hit newer hle h
    have hat : now - name.windowMs < hit := of_decide_eq_true h
    exact decide_eq_true (by omega)

/-- From now on the rows show what the histories show within the windows, and no window holds too much. -/
structure Mirrors (now : Int) (s : RateState) : Prop where
  past : ∀ name subject, ∀ hit ∈ s.admitted name subject, hit ≤ now
  shows : ∀ name subject later, now ≤ later →
    (selectHits s.table (rateKey name subject) later).filter (withinWindow name later) =
      (s.admitted name subject).filter (withinWindow name later)
  bounded : ∀ name subject later, now ≤ later →
    ((s.admitted name subject).filter (withinWindow name later)).length ≤ name.tokens

theorem Mirrors.mono (h : Mirrors now s) (hle : now ≤ later) : Mirrors later s where
  past name subject hit hmem := (h.past name subject hit hmem).trans hle
  shows name subject later' hle' := h.shows name subject later' (hle.trans hle')
  bounded name subject later' hle' := h.bounded name subject later' (hle.trans hle')

theorem mirrors_empty (now : Int) : Mirrors now .empty where
  past _ _ _ hmem := nomatch hmem
  shows _ _ _ _ := rfl
  bounded name _ _ _ := Nat.zero_le name.tokens

/-- Swept rows show nothing any more. -/
theorem selectHits_sweep (table : HitsTable) (key : Text) (hle : now ≤ later) :
    selectHits (fun key => (table key).filter (·.live now)) key later = selectHits table key later := by
  unfold selectHits
  dsimp only
  rcases table key with _ | ⟨hits, _ | expiresAt⟩
  · rfl
  · rfl
  · by_cases hlive : now < expiresAt
    · have hkept : (some (⟨hits, some expiresAt⟩ : Timed (List Int))).filter (·.live now) = some ⟨hits, some expiresAt⟩ :=
        Option.filter_eq_some_iff.2 ⟨rfl, decide_eq_true hlive⟩
      rw [hkept]
    · have hgone : (some (⟨hits, some expiresAt⟩ : Timed (List Int))).filter (·.live now) = none := by
        simp [Timed.live, hlive]
      have hexpired : ¬ later < expiresAt := by omega
      rw [hgone]
      exact (if_neg hexpired).symm

theorem limit_ok {table table' : HitsTable} (h : limit name subject now table = .ok table') :
    let hits := (selectHits table (rateKey name subject) now).filter (withinWindow name now)
    hits.length < name.tokens ∧
      table' = Function.update table (rateKey name subject) (some ⟨hits ++ [now], some (now + name.windowMs)⟩) := by
  unfold limit at h
  dsimp only at h
  split at h
  · cases h
  · next hroom =>
    cases h
    exact ⟨Nat.lt_of_not_le hroom, rfl⟩

theorem limit_error {table : HitsTable} {refusal : RateLimited} (h : limit name subject now table = .error refusal) :
    let hits := (selectHits table (rateKey name subject) now).filter (withinWindow name now)
    name.tokens ≤ hits.length ∧ refusal = rateLimited (hits.headD 0 + name.windowMs - now) := by
  unfold limit at h
  dsimp only at h
  split at h
  · next hfull =>
    cases h
    exact ⟨hfull, rfl⟩
  · cases h

theorem limit_admits (table : HitsTable) : (∃ table', limit name subject now table = .ok table') ↔
    ((selectHits table (rateKey name subject) now).filter (withinWindow name now)).length < name.tokens := by
  constructor
  · rintro ⟨table', h⟩
    exact (limit_ok h).1
  · intro hroom
    exact ⟨_, if_neg (Nat.not_le.2 hroom)⟩

/-- An admission enters the bucket's history and no other. -/
theorem admitted_concat (s : RateState) (table : HitsTable) (name name' : LimitName) (subject subject' : Text) (now : Int) :
    RateState.admitted ⟨table, s.admissions ++ [((name, subject), now)]⟩ name' subject' =
      s.admitted name' subject' ++ if (name, subject) = (name', subject') then [now] else [] := by
  unfold admitted
  rw [List.filter_append, List.map_append]
  split
  · next heq => simp [heq]
  · next hne => simp [hne]

theorem Mirrors.admit (h : Mirrors now s) {table : HitsTable} (hlimit : limit name subject now s.table = .ok table) :
    Mirrors now ⟨table, s.admissions ++ [((name, subject), now)]⟩ := by
  obtain ⟨hroom, rfl⟩ := limit_ok hlimit
  rw [h.shows name subject now le_rfl] at hroom ⊢
  have hwithin : ∀ later, now ≤ later → (((s.admitted name subject).filter (withinWindow name now)).filter
      (withinWindow name later)) = (s.admitted name subject).filter (withinWindow name later) :=
    fun later hle => filter_fresh_filter (moves_withinWindow name) hle
  refine ⟨fun name' subject' hit hmem => ?_, fun name' subject' later hle => ?_, fun name' subject' later hle => ?_⟩
  · rw [admitted_concat, List.mem_append] at hmem
    rcases hmem with hmem | hmem
    · exact h.past name' subject' hit hmem
    · split at hmem
      · exact (List.mem_singleton.1 hmem).le
      · cases hmem
  · rw [admitted_concat]
    split
    · next heq =>
      obtain ⟨rfl, rfl⟩ := Prod.mk.inj heq
      by_cases hlive : later < now + name.windowMs
      · have hselect : selectHits (Function.update s.table (rateKey name subject)
            (some ⟨(s.admitted name subject).filter (withinWindow name now) ++ [now], some (now + name.windowMs)⟩))
            (rateKey name subject) later = (s.admitted name subject).filter (withinWindow name now) ++ [now] := by
          unfold selectHits
          rw [Function.update_self]
          exact if_pos hlive
        rw [hselect, List.filter_append, List.filter_append, hwithin later hle]
      · -- the row is gone, and so is everything within the window
        have hselect : selectHits (Function.update s.table (rateKey name subject)
            (some ⟨(s.admitted name subject).filter (withinWindow name now) ++ [now], some (now + name.windowMs)⟩))
            (rateKey name subject) later = [] := by
          unfold selectHits
          rw [Function.update_self]
          exact if_neg hlive
        have hold : ∀ hit ∈ s.admitted name subject ++ [now], ¬ withinWindow name later hit = true := by
          intro hit hmem hat
          have hlater : later - name.windowMs < hit := of_decide_eq_true hat
          rcases List.mem_append.1 hmem with hmem | hmem
          · have := h.past name subject hit hmem
            omega
          · have := List.mem_singleton.1 hmem
            omega
        rw [hselect, List.filter_eq_nil_iff.2 hold]
        rfl
    · next hne =>
      have hkey : rateKey name' subject' ≠ rateKey name subject := by
        intro heq
        obtain ⟨rfl, rfl⟩ := rateKey_inj heq
        exact hne rfl
      have hselect : ∀ row, selectHits (Function.update s.table (rateKey name subject) row) (rateKey name' subject') later =
          selectHits s.table (rateKey name' subject') later := by
        intro row
        unfold selectHits
        rw [Function.update_of_ne hkey]
      rw [hselect, List.append_nil]
      exact h.shows name' subject' later hle
  · rw [admitted_concat]
    split
    · next heq =>
      obtain ⟨rfl, rfl⟩ := Prod.mk.inj heq
      have hsub : ((s.admitted name subject).filter (withinWindow name later)).length ≤
          ((s.admitted name subject).filter (withinWindow name now)).length := by
        rw [← hwithin later hle]
        exact List.length_filter_le ..
      have hone := List.length_filter_le (withinWindow name later) [now]
      rw [List.length_singleton] at hone
      rw [List.filter_append, List.length_append]
      omega
    · rw [List.append_nil]
      exact h.bounded name' subject' later hle

theorem Mirrors.step {event : RateEvent} (h : Mirrors event.now s) : Mirrors event.now (s.step event) := by
  cases event with
  | request name subject now =>
    cases hlimit : limit name subject now s.table with
    | ok table =>
      have hstep : s.step (.request name subject now) = ⟨table, s.admissions ++ [((name, subject), now)]⟩ := by
        simp only [RateState.step, hlimit]
      rw [hstep]
      exact h.admit hlimit
    | error refusal =>
      have hstep : s.step (.request name subject now) = s := by
        simp only [RateState.step, hlimit]
      rw [hstep]
      exact h
  | sweep now =>
    refine ⟨h.past, fun name subject later hle => ?_, h.bounded⟩
    have hselect := selectHits_sweep s.table (rateKey name subject) hle
    exact (congrArg (List.filter (withinWindow name later)) hselect).trans (h.shows name subject later hle)

theorem Mirrors.run {events : List RateEvent} (h : Mirrors now s)
    (htimes : (now :: events.map RateEvent.now).Pairwise (· ≤ ·)) (hlater : ∀ event ∈ events, event.now ≤ later)
    (hle : now ≤ later) : Mirrors later (s.run events) := by
  induction events generalizing s now with
  | nil => exact h.mono hle
  | cons event events ih =>
    obtain ⟨hfirst, htimes⟩ := List.pairwise_cons.1 htimes
    obtain ⟨hevent, hevents⟩ := List.forall_mem_cons.1 hlater
    exact ih (h.mono (hfirst event.now (List.mem_cons_self ..))).step htimes hevents hevent

/-- Only a request to the bucket adds to its history. -/
theorem admitted_run_of_alone {events : List RateEvent} (h : ∀ event ∈ events, ¬ event.Asks name subject) (s : RateState) :
    (s.run events).admitted name subject = s.admitted name subject := by
  induction events generalizing s with
  | nil => rfl
  | cons event events ih =>
    obtain ⟨hevent, hevents⟩ := List.forall_mem_cons.1 h
    refine (ih hevents (s.step event)).trans ?_
    cases event with
    | request name' subject' now =>
      have hne : (name', subject') ≠ (name, subject) := by
        rintro ⟨⟩
        exact hevent ⟨now, rfl⟩
      cases hlimit : limit name' subject' now s.table with
      | ok table =>
        simp only [RateState.step, hlimit]
        rw [admitted_concat, if_neg hne, List.append_nil]
      | error refusal => simp only [RateState.step, hlimit]
    | sweep now => rfl

end RateState

open RateState

/-- At the end of any history a request is admitted exactly if the bucket has admitted fewer than its tokens within the
last window; and if it is refused, one that comes after the announced wait is admitted, unless the bucket has been
asked in between. -/
theorem rate_limited (events : List RateEvent) (name : LimitName) (subject : Text) (now : Int)
    (htimes : (events.map RateEvent.now ++ [now]).Pairwise (· ≤ ·)) :
    let s := RateState.empty.run events
    ((∃ table, limit name subject now s.table = .ok table) ↔
      ((s.admitted name subject).filter fun hit => decide (now - name.windowMs < hit)).length < name.tokens) ∧
    ∀ refusal, limit name subject now s.table = .error refusal →
      ∀ (events' : List RateEvent) (now' : Int), (∀ event ∈ events', ¬ event.Asks name subject) →
        (now :: events'.map RateEvent.now ++ [now']).Pairwise (· ≤ ·) → now + 1000 * refusal.retryAfterSec ≤ now' →
        ∃ table, limit name subject now' ((s.step (.request name subject now)).run events').table = .ok table := by
  intro s
  have hmirrors : Mirrors now s := by
    obtain ⟨hevents, -, hlast⟩ := List.pairwise_append.1 htimes
    have hle : ∀ event ∈ events, event.now ≤ now :=
      fun event hmem => hlast event.now (List.mem_map_of_mem hmem) now (List.mem_singleton_self now)
    cases events with
    | nil => exact mirrors_empty now
    | cons event events =>
      obtain ⟨hevent, hrest⟩ := List.forall_mem_cons.1 hle
      exact (mirrors_empty event.now).step.run hevents hrest hevent
  refine ⟨?_, fun refusal hrefused events' now' halone htimes' hwait => ?_⟩
  · rw [limit_admits, hmirrors.shows name subject now le_rfl]
    exact Iff.rfl
  · obtain ⟨hfull, rfl⟩ := limit_error hrefused
    rw [hmirrors.shows name subject now le_rfl] at hfull hwait
    have hstep : s.step (.request name subject now) = s := by
      simp only [RateState.step, hrefused]
    have hle : ∀ event ∈ events', event.now ≤ now' := fun event hmem =>
      (List.pairwise_append.1 htimes').2.2 event.now (List.mem_cons_of_mem _ (List.mem_map_of_mem hmem)) now'
        (List.mem_singleton_self now')
    have hnow : now ≤ now' :=
      (List.pairwise_append.1 htimes').2.2 now (List.mem_cons_self ..) now' (List.mem_singleton_self now')
    have hmirrors' : Mirrors now' (s.run events') := hmirrors.run (List.pairwise_append.1 htimes').1 hle hnow
    rw [hstep, limit_admits, hmirrors'.shows name subject now' le_rfl, admitted_run_of_alone halone]
    have hbounded := hmirrors.bounded name subject now le_rfl
    rw [← filter_fresh_filter (moves_withinWindow name) hnow]
    generalize (s.admitted name subject).filter (withinWindow name now) = hits at hfull hwait hbounded
    -- the wait takes the oldest of the admissions out of the window
    cases hits with
    | nil => exact name.tokens_pos
    | cons oldest hits =>
      have hwaited := le_retryAfter (oldest + name.windowMs - now)
      have hgone : ¬ withinWindow name now' oldest = true := by
        intro hwithin
        have hlater : now' - name.windowMs < oldest := of_decide_eq_true hwithin
        have hwait' : now + 1000 * (rateLimited (oldest + name.windowMs - now)).retryAfterSec ≤ now' := hwait
        omega
      rw [List.filter_cons_of_neg hgone]
      have hrest := List.length_filter_le (withinWindow name now') hits
      rw [List.length_cons] at hbounded
      omega

/-- Three exports in three seconds, a fourth that is refused, and one after the wait of 57 seconds. -/
theorem rate_limited_export :
    let s := RateState.empty.run [.request .userExport ['u'] 0, .request .userExport ['u'] 1000, .request .userExport ['u'] 2000]
    limit .userExport ['u'] 3000 s.table = .error ⟨429, "rate_limited", "Too many requests", 57⟩ ∧
      ∃ table, limit .userExport ['u'] 60000 ((s.step (.request .userExport ['u'] 3000)).run []).table = .ok table := by
  intro s
  have hrefused : limit .userExport ['u'] 3000 s.table = .error ⟨429, "rate_limited", "Too many requests", 57⟩ := rfl
  exact ⟨hrefused, (rate_limited [.request .userExport ['u'] 0, .request .userExport ['u'] 1000,
    .request .userExport ['u'] 2000] .userExport ['u'] 3000 (by decide)).2 _ hrefused [] 60000 (by simp) (by decide)
    (by decide)⟩

end Zedspaces.Web
