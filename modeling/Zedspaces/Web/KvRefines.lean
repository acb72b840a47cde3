/-
The SQL store is the map with expiring entries: each statement is answered as the map answers it and leaves a table
that shows what the map then has (`same_answer`), so every trace of every client's operations is, and a sweep is not
noticed anywhere (`results_eq`). A lock taken by setting its key if absent and released by its token is a lease: while a
taker's lease lasts, the table holds its token (`lock_held`).
-/
import Zedspaces.Lib.Lease
import Zedspaces.Lib.System
import Zedspaces.Web.Kv

namespace Zedspaces.Web

open Lib Lib.System Lib.TtlMap

variable {sql : SqlNumbers} {table m : TtlMap String String} {now : Int} {key : String}

/-! ## Statements -/

theorem SqlKv.expired_eq (row : Timed String) : SqlKv.expired now row = !row.live now := by
  unfold SqlKv.expired Timed.live
  cases row.expiresAt with
  | none => rfl
  | some t =>
    show decide (t ≤ now) = !decide (now < t)
    rw [← decide_not]
    exact decide_eq_decide.2 Int.not_lt.symm

theorem same_set (h : Same now table m) (key : String) (value : String) (exMs : Option Int) (nx : Bool) :
    (SqlKv.set table now key value exMs nx).2 = (KvSpec.set m now key value exMs nx).2 ∧
      Same now (SqlKv.set table now key value exMs nx).1 (KvSpec.set m now key value exMs nx).1 := by
  unfold SqlKv.set KvSpec.set
  dsimp only
  rw [← h key]
  cases hrow : table key with
  | none =>
    have habsent : table.atTime now key = none := by rw [atTime, hrow]; rfl
    refine ⟨by rw [habsent]; simp, h.update ?_⟩
    rw [habsent]
    simp
  | some row =>
    have hat : table.atTime now key = if row.live now then some row else none := by rw [atTime, hrow]; rfl
    dsimp only
    cases hlive : row.live now with
    | true =>
      rw [hlive, if_pos rfl] at hat
      cases nx with
      | true =>
        rw [SqlKv.expired_eq, hlive, hat]
        refine ⟨rfl, h.keep ?_⟩
        rw [hat]
        show some row = (some row).filter (·.live now)
        rw [Option.filter_some, if_pos hlive]
      | false =>
        rw [hat]
        exact ⟨rfl, h.update rfl⟩
    | false =>
      rw [hlive, if_neg (by simp)] at hat
      rw [SqlKv.expired_eq, hlive, hat]
      refine ⟨by simp, ?_⟩
      simp only [Bool.not_false, Bool.or_true, if_true]
      refine h.update ?_
      rw [hat]
      simp

theorem same_del (h : Same now table m) : Same now (SqlKv.del table key) (KvSpec.del m now key) := h.update rfl

theorem same_compareDelete (h : Same now table m) (value : String) :
    Same now (SqlKv.compareDelete table key value) (KvSpec.compareDelete m now key value) := by
  unfold SqlKv.compareDelete KvSpec.compareDelete
  cases hrow : table key with
  | none =>
    refine h.keep ?_
    rw [atTime, hrow]
    rfl
  | some row =>
    dsimp only
    split
    · next hvalue =>
      refine h.update ?_
      rw [atTime, hrow, Option.filter_filter, Option.filter_filter]
      simp [Option.filter, hvalue]
    · next hvalue =>
      refine h.keep ?_
      rw [atTime, hrow, Option.filter_filter, Option.filter_filter]
      cases hlive : row.live now <;> simp [Option.filter, hvalue, hlive]

theorem same_incrBy (sql : SqlNumbers) (h : Same now table m) (key : String) (delta : Int) (exMs : Option Int) :
    (SqlKv.incrBy table now key sql delta exMs).2 = (KvSpec.incrBy m now key sql delta exMs).2 ∧
      Same now (SqlKv.incrBy table now key sql delta exMs).1 (KvSpec.incrBy m now key sql delta exMs).1 := by
  have hcounted : SqlKv.counted now sql delta exMs (table key) =
      KvSpec.counted now sql delta exMs (table.atTime now key) := by
    cases hrow : table key with
    | none => rw [atTime, hrow]; rfl
    | some row =>
      unfold SqlKv.counted
      dsimp only
      rw [SqlKv.expired_eq, atTime, hrow]
      cases hlive : row.live now <;> simp [Option.filter, hlive, KvSpec.counted, Timed.since]
  unfold SqlKv.incrBy KvSpec.incrBy
  dsimp only
  rw [hcounted, ← h key]
  exact ⟨rfl, h.update rfl⟩

theorem same_expire (h : Same now table m) (exMs : Int) :
    Same now (SqlKv.expire table now key exMs) (KvSpec.expire m now key exMs) := by
  unfold SqlKv.expire KvSpec.expire
  cases hrow : table key with
  | none =>
    refine h.keep ?_
    rw [atTime, hrow]
    rfl
  | some row =>
    dsimp only
    split
    · next hlive =>
      refine h.update ?_
      rw [atTime, hrow, Option.filter_some (a := row), if_pos hlive, Option.map_some]
    · next hlive =>
      refine h.keep ?_
      rw [atTime, hrow, Option.filter_some, if_neg hlive]
      rfl

theorem get_eq (h : Same now table m) (key : String) : SqlKv.get table now key = KvSpec.get m now key := by
  rw [KvSpec.get, ← h key]
  rfl

theorem select_eq (h : Same now table m) (keys : List String) : SqlKv.select table now keys = KvSpec.select m now keys := by
  unfold SqlKv.select KvSpec.select
  refine List.filterMap_congr fun key _ => ?_
  rw [get_eq h]

/-- One statement: the same answer, and a table that shows what the map has. -/
theorem same_answer (sql : SqlNumbers) (h : Same now table m) (statement : KvStatement) :
    (SqlKv.answer sql now table statement).2 = (KvSpec.answer sql now m statement).2 ∧
      Same now (SqlKv.answer sql now table statement).1 (KvSpec.answer sql now m statement).1 := by
  cases statement with
  | get key => exact ⟨congrArg KvReply.value (get_eq h key), h⟩
  | set key value exMs nx =>
    obtain ⟨hreply, hsame⟩ := same_set h key value exMs nx
    exact ⟨congrArg KvReply.flag hreply, hsame⟩
  | del key => exact ⟨rfl, same_del h⟩
  | compareDelete key value => exact ⟨rfl, same_compareDelete h value⟩
  | incrBy key delta exMs =>
    obtain ⟨hreply, hsame⟩ := same_incrBy sql h key delta exMs
    exact ⟨congrArg KvReply.number hreply, hsame⟩
  | expire key exMs => exact ⟨rfl, same_expire h exMs⟩
  | select keys => exact ⟨congrArg KvReply.rows (select_eq h keys), h⟩

/-! ## Rows -/

/-- The statement writes nothing under the key. -/
def KvStatement.Spares (key : String) : KvStatement → Prop
  | .set k _ _ _ | .del k | .compareDelete k _ | .incrBy k _ _ | .expire k _ => k ≠ key
  | _ => True

instance (key : String) : ∀ statement : KvStatement, Decidable (statement.Spares key)
  | .set k _ _ _ | .del k | .compareDelete k _ | .incrBy k _ _ | .expire k _ => inferInstanceAs (Decidable (k ≠ key))
  | .get _ | .select _ => .isTrue trivial

/-- Such a statement leaves the key's row as it is. -/
theorem answer_of_spares (statement : KvStatement) (hne : statement.Spares key) :
    (SqlKv.answer sql now table statement).1 key = table key := by
  have hupdate : ∀ {k : String} (row : Option (Timed String)), k ≠ key → Function.update table k row key = table key :=
    fun row hk => Function.update_of_ne hk.symm row table
  cases statement with
  | get k => rfl
  | select keys => rfl
  | set k value exMs nx =>
    show (SqlKv.set table now k value exMs nx).1 key = _
    unfold SqlKv.set
    dsimp only
    split
    · exact hupdate _ hne
    · split
      · exact hupdate _ hne
      · rfl
  | del k => exact hupdate _ hne
  | compareDelete k value =>
    show SqlKv.compareDelete table k value key = _
    unfold SqlKv.compareDelete
    cases table k with
    | none => rfl
    | some row =>
      dsimp only
      split
      · exact hupdate _ hne
      · rfl
  | incrBy k delta exMs => exact hupdate _ hne
  | expire k exMs =>
    show SqlKv.expire table now k exMs key = _
    unfold SqlKv.expire
    cases table k with
    | none => rfl
    | some row =>
      dsimp only
      split
      · exact hupdate _ hne
      · rfl

/-- A sweep leaves what has not expired, and brings nothing. -/
theorem sweep_eq (table : SqlKv.Table) (now : Int) (key : String) :
    SqlKv.sweepExpiredKv table now key = table.atTime now key := by
  unfold SqlKv.sweepExpiredKv atTime
  congr 1
  funext row
  rw [SqlKv.expired_eq, Bool.not_not]

theorem same_sweep (h : Same now table m) : Same now (SqlKv.sweepExpiredKv table now) m := by
  have hsweep : SqlKv.sweepExpiredKv table now = fun key => table.atTime now key := funext (sweep_eq table now)
  rw [hsweep]
  exact h.sweep

theorem set_of_not_taken {token : String} {ttl : Option Int} {nx : Bool}
    (h : (SqlKv.set table now key token ttl nx).2 = false) : (SqlKv.set table now key token ttl nx).1 = table := by
  unfold SqlKv.set at h ⊢
  dsimp only at h ⊢
  split at h
  · cases h
  · split at h
    · cases h
    · next hnot => rw [if_neg hnot]

/-- Setting a key whatever it holds. -/
theorem set_always (table : SqlKv.Table) (now : Int) (key value : String) (exMs : Option Int) :
    (SqlKv.set table now key value exMs false).1 = Function.update table key (some (Timed.since now value exMs)) := by
  unfold SqlKv.set
  dsimp only
  split <;> rfl

theorem set_of_taken {token : String} {ttl : Option Int} {nx : Bool}
    (h : (SqlKv.set table now key token ttl nx).2 = true) :
    (SqlKv.set table now key token ttl nx).1 = Function.update table key (some (Timed.since now token ttl)) := by
  unfold SqlKv.set at h ⊢
  dsimp only at h ⊢
  split at h
  · rfl
  · split at h
    · next hwritten => rw [if_pos hwritten]
    · cases h

/-- The key is set if absent exactly when reading it finds nothing. -/
theorem set_nx_taken (value : String) (exMs : Option Int) :
    (SqlKv.set table now key value exMs true).2 = true ↔ SqlKv.get table now key = none := by
  have hspec := (same_set (Same.refl now table) key value exMs true).1
  rw [hspec, KvSpec.set, get_eq (Same.refl now table) key, KvSpec.get]
  cases table.atTime now key <;> simp

/-! ## Traces -/

/-- The table and the map at the same point of a trace. -/
structure Simulates (s a : KvState) : Prop where
  now : s.now = a.now
  store : Same s.now s.store a.store
  mgets : s.mgets = a.mgets

theorem simulates_refl (s : KvState) : Simulates s s := ⟨rfl, .refl _ _, rfl⟩

variable {s a : KvState}

theorem simulates_step (sql : SqlNumbers) (h : Simulates s a) (event : KvEvent) :
    ((sqlKv sql).step s event).2 = ((kvSpec sql).step a event).2 ∧
      Simulates ((sqlKv sql).step s event).1 ((kvSpec sql).step a event).1 := by
  obtain ⟨now, store, mgets⟩ := s
  obtain ⟨now', store', mgets'⟩ := a
  obtain ⟨rfl, hstore, rfl⟩ : now = now' ∧ Same now store store' ∧ mgets = mgets' := ⟨h.now, h.store, h.mgets⟩
  cases event with
  | advance ms => exact ⟨rfl, rfl, hstore.later (by show now ≤ now + ms; omega), rfl⟩
  | call client statement =>
    obtain ⟨hreply, hsame⟩ := same_answer sql hstore statement
    exact ⟨congrArg (fun reply => some (client, KvResult.reply reply)) hreply, rfl, hsame, rfl⟩
  | mget client keys =>
    by_cases hkeys : keys = []
    · simp only [KvStore.step, if_pos hkeys]
      exact ⟨trivial, h⟩
    · simp only [KvStore.step, if_neg hkeys]
      exact ⟨trivial, rfl, hstore, rfl⟩
  | chunk client =>
    simp only [KvStore.step]
    cases hget : mgets client with
    | none => exact ⟨rfl, h⟩
    | some g =>
      obtain ⟨hreply, hsame⟩ := same_answer sql hstore (.select (g.rest.take mgetChunk))
      have hreply' : ((sqlKv sql).answer now store (.select (g.rest.take mgetChunk))).2 =
          ((kvSpec sql).answer now store' (.select (g.rest.take mgetChunk))).2 := hreply
      dsimp only
      rw [hreply']
      by_cases hrest : g.rest.drop mgetChunk = []
      · rw [if_pos hrest, if_pos hrest]
        exact ⟨rfl, rfl, hsame, rfl⟩
      · rw [if_neg hrest, if_neg hrest]
        exact ⟨rfl, rfl, hsame, rfl⟩
  | sweep => exact ⟨rfl, rfl, same_sweep hstore, rfl⟩

/-- A trace is answered as the map answers it. -/
theorem results_eq_spec (h : Simulates s a) (events : List KvEvent) :
    (sqlKv sql).results s events = (kvSpec sql).results a events := by
  induction events generalizing s a with
  | nil => rfl
  | cons event events ih =>
    obtain ⟨hresult, hnext⟩ := simulates_step sql h event
    rw [KvStore.results, KvStore.results, hresult, ih hnext]

def KvEvent.isSweep : KvEvent → Bool
  | .sweep => true
  | _ => false

/-- The map has nothing to sweep. -/
theorem spec_results_sweepless (a : KvState) (events : List KvEvent) :
    (kvSpec sql).results a (events.filter (!·.isSweep)) = (kvSpec sql).results a events := by
  induction events generalizing a with
  | nil => rfl
  | cons event events ih =>
    cases event with
    | sweep =>
      show (kvSpec sql).results a (events.filter (!·.isSweep)) = [] ++ (kvSpec sql).results a events
      rw [List.nil_append, ih]
    | _ =>
      rw [List.filter_cons_of_pos (by rfl), KvStore.results, KvStore.results, ih]

/-- Sweeps are not noticed, wherever they run. -/
theorem results_sweepless (s : KvState) (events : List KvEvent) :
    (sqlKv sql).results s (events.filter (!·.isSweep)) = (sqlKv sql).results s events := by
  rw [results_eq_spec (simulates_refl s), results_eq_spec (simulates_refl s), spec_results_sweepless]

/-! ## Locks -/

/-- The row of a lock as a lease. -/
def SqlKv.lease (table : SqlKv.Table) (key : String) : Option (Lease String) :=
  (table key).bind fun row => row.expiresAt.map (⟨row.value, ·⟩)

theorem lease_congr {table' : SqlKv.Table} (h : table' key = table key) : SqlKv.lease table' key = SqlKv.lease table key := by
  rw [SqlKv.lease, SqlKv.lease, h]

theorem lease_update (table : SqlKv.Table) (key : String) (row : Option (Timed String)) :
    SqlKv.lease (Function.update table key row) key =
      row.bind fun row => row.expiresAt.map (⟨row.value, ·⟩) := by
  rw [SqlKv.lease, Function.update_self]

/-- Setting the key if absent takes the lease. -/
theorem lease_set {token : String} {ttl : Int} (h : (SqlKv.set table now key token (some ttl) true).2 = true) :
    SqlKv.lease (SqlKv.set table now key token (some ttl) true).1 key = some ⟨token, now + ttl⟩ ∧
      Lease.acquire now ttl token (SqlKv.lease table key) = some ⟨token, now + ttl⟩ := by
  refine ⟨by rw [set_of_taken h]; exact lease_update table key _, ?_⟩
  have habsent := (set_nx_taken token (some ttl)).1 h
  rw [SqlKv.get] at habsent
  cases hrow : table key with
  | none => rw [SqlKv.lease, hrow]; rfl
  | some row =>
    have hdead : row.live now = false := by
      rw [hrow] at habsent
      cases hlive : row.live now with
      | false => rfl
      | true => rw [Option.filter_some, if_pos hlive] at habsent; cases habsent
    rw [SqlKv.lease, hrow]
    unfold Timed.live at hdead
    cases ht : row.expiresAt with
    | none => rw [ht] at hdead; cases hdead
    | some t =>
      rw [ht] at hdead
      have hle : t ≤ now := Int.not_lt.1 (of_decide_eq_false hdead)
      simp [Lease.acquire, ht, hle]

/-- Deleting the key by its value releases the lease. -/
theorem lease_compareDelete (table : SqlKv.Table) (key token : String) :
    SqlKv.lease (SqlKv.compareDelete table key token) key = Lease.release token (SqlKv.lease table key) := by
  unfold SqlKv.compareDelete
  cases hrow : table key with
  | none =>
    dsimp only
    rw [SqlKv.lease, hrow]
    rfl
  | some row =>
    have hlease : SqlKv.lease table key = row.expiresAt.map (⟨row.value, ·⟩) := by rw [SqlKv.lease, hrow]; rfl
    dsimp only
    by_cases hvalue : row.value = token
    · rw [if_pos hvalue, lease_update, hlease]
      cases ht : row.expiresAt <;> simp [Lease.release, hvalue]
    · rw [if_neg hvalue, hlease]
      cases ht : row.expiresAt <;> simp [Lease.release, hvalue]

theorem get_of_lease {l : Lease String} (h : SqlKv.lease table key = some l) (hnow : now < l.expiresAt) :
    SqlKv.get table now key = some l.token := by
  obtain ⟨row, hrow, hl⟩ := Option.bind_eq_some_iff.1 h
  obtain ⟨t, ht, rfl⟩ := Option.map_eq_some_iff.1 hl
  have hlive : row.live now = true := by
    rw [Timed.live, ht]
    exact decide_eq_true hnow
  rw [SqlKv.get, hrow, Option.filter_some, if_pos hlive]
  rfl

/-- A trace and the lock of one key: the leases taken and not yet released by their token. -/
structure LockTrace where
  kv : KvState
  held : List (Lease String)

def LockTrace.step (sql : SqlNumbers) (key : String) (s : LockTrace) (event : KvEvent) : Option LockTrace :=
  let kv := ((sqlKv sql).step s.kv event).1
  match event with
  | .call _ (.set k token (some ttl) true) =>
    if k = key then
      let taken := (SqlKv.set s.kv.store s.kv.now key token (some ttl) true).2
      some ⟨kv, if taken then ⟨token, s.kv.now + ttl⟩ :: s.held else s.held⟩
    else some { s with kv }
  | .call _ (.compareDelete k token) =>
    if k = key then some { s with kv, held := s.held.filter (·.token ≠ token) } else some { s with kv }
  | _ => some { s with kv }

/-- Nothing but `withLock` writes the lock's key. -/
def OnlyWithLock (key : String) (_ : LockTrace) : KvEvent → Prop
  | .call _ (.set k _ exMs nx) => k = key → nx = true ∧ exMs.isSome = true
  | .call _ (.del k) | .call _ (.incrBy k _ _) | .call _ (.expire k _) => k ≠ key
  | _ => True

instance (key : String) (s : LockTrace) : ∀ event : KvEvent, Decidable (OnlyWithLock key s event)
  | .call _ (.set k _ exMs nx) => inferInstanceAs (Decidable (k = key → nx = true ∧ exMs.isSome = true))
  | .call _ (.del k) | .call _ (.incrBy k _ _) | .call _ (.expire k _) => inferInstanceAs (Decidable (k ≠ key))
  | .call _ (.get _) | .call _ (.select _) | .call _ (.compareDelete _ _) => .isTrue trivial
  | .advance _ | .mget _ _ | .chunk _ | .sweep => .isTrue trivial

/-- Traces that begin with any table. -/
def lockTrace (sql : SqlNumbers) (key : String) : System LockTrace KvEvent where
  init s := s.held = []
  step := LockTrace.step sql key

variable {t t' : LockTrace} {event : KvEvent}

/-- A lease that lasts is the row's. -/
def LockTrace.Ok (key : String) (t : LockTrace) : Prop :=
  ∀ l ∈ t.held, t.kv.now < l.expiresAt → SqlKv.lease t.kv.store key = some l

/-- A sweep leaves a lasting lease where it is. -/
theorem lease_sweep {l : Lease String} (h : SqlKv.lease table key = some l) (hnow : now < l.expiresAt) :
    SqlKv.lease (SqlKv.sweepExpiredKv table now) key = some l := by
  obtain ⟨row, hrow, hl⟩ := Option.bind_eq_some_iff.1 h
  obtain ⟨at_, ht, hl'⟩ := Option.map_eq_some_iff.1 hl
  subst hl'
  have hlive : row.live now = true := by
    rw [Timed.live, ht]
    exact decide_eq_true hnow
  rw [SqlKv.lease, sweep_eq, atTime, hrow, Option.filter_some, if_pos hlive]
  exact hl

/-- The store after an event that leaves the lock alone. -/
theorem LockTrace.Ok.frame (h : t.Ok key) {kv : KvState} (hnow : t.kv.now ≤ kv.now)
    (hlease : ∀ l, kv.now < l.expiresAt → SqlKv.lease t.kv.store key = some l → SqlKv.lease kv.store key = some l) :
    ({ t with kv } : LockTrace).Ok key := fun l hl hlasts =>
  hlease l hlasts (h l hl (Int.lt_of_le_of_lt hnow hlasts))

theorem LockTrace.Ok.set (h : t.Ok key) {token : String} {ttl : Int} {kv : KvState} (hnow : kv.now = t.kv.now)
    (hstore : kv.store = (SqlKv.set t.kv.store t.kv.now key token (some ttl) true).1) :
    LockTrace.Ok key ⟨kv,
      if (SqlKv.set t.kv.store t.kv.now key token (some ttl) true).2 then ⟨token, t.kv.now + ttl⟩ :: t.held else t.held⟩ := by
  intro l hl hlasts
  have hlasts : t.kv.now < l.expiresAt := hnow ▸ hlasts
  show SqlKv.lease kv.store key = some l
  rw [hstore]
  cases htaken : (SqlKv.set t.kv.store t.kv.now key token (some ttl) true).2 with
  | true =>
    obtain ⟨hlease, hacquire⟩ := lease_set htaken
    rw [htaken, if_pos rfl] at hl
    rcases List.mem_cons.1 hl with rfl | hl
    · exact hlease
    · -- a lease that lasts is in the way of the next one
      have hholds : Lease.Holds t.kv.now l.token (SqlKv.lease t.kv.store key) := ⟨l, h l hl hlasts, rfl, hlasts⟩
      rw [hholds.acquire_eq_none] at hacquire
      cases hacquire
  | false =>
    rw [htaken, if_neg (by simp)] at hl
    rw [set_of_not_taken htaken]
    exact h l hl hlasts

theorem LockTrace.Ok.compareDelete (h : t.Ok key) {token : String} {kv : KvState} (hnow : kv.now = t.kv.now)
    (hstore : kv.store = SqlKv.compareDelete t.kv.store key token) :
    LockTrace.Ok key ⟨kv, t.held.filter (·.token ≠ token)⟩ := by
  intro l hl hlasts
  obtain ⟨hl, hother⟩ := List.mem_filter.1 hl
  have hother : l.token ≠ token := of_decide_eq_true hother
  show SqlKv.lease kv.store key = some l
  rw [hstore, lease_compareDelete, h l hl (hnow ▸ hlasts)]
  exact if_neg hother

theorem LockTrace.Ok.step (h : t.Ok key) (hg : OnlyWithLock key t event) (hstep : t.step sql key event = some t') :
    t'.Ok key := by
  have hle : t.kv.now ≤ t.kv.now := Int.le_refl _
  cases event with
  | advance ms =>
    cases hstep
    exact h.frame (by show t.kv.now ≤ t.kv.now + ms; omega) fun l _ hl => hl
  | call client statement =>
    have hother : statement.Spares key → LockTrace.Ok key { t with kv := ((sqlKv sql).step t.kv (.call client statement)).1 } :=
      fun hne => h.frame hle fun l _ hl => (lease_congr (answer_of_spares statement hne)).trans hl
    cases statement with
    | get k => cases hstep; exact hother trivial
    | select keys => cases hstep; exact hother trivial
    | del k => cases hstep; exact hother hg
    | incrBy k delta exMs => cases hstep; exact hother hg
    | expire k exMs => cases hstep; exact hother hg
    | compareDelete k token =>
      by_cases hk : k = key
      · subst hk
        simp only [LockTrace.step, if_true, Option.some.injEq] at hstep
        subst hstep
        exact h.compareDelete rfl rfl
      · simp only [LockTrace.step, if_neg hk, Option.some.injEq] at hstep
        subst hstep
        exact hother hk
    | set k token exMs nx =>
      by_cases hk : k = key
      · subst hk
        obtain ⟨rfl, hex⟩ := hg rfl
        obtain ⟨ttl, rfl⟩ := Option.isSome_iff_exists.1 hex
        simp only [LockTrace.step, if_true, Option.some.injEq] at hstep
        subst hstep
        exact h.set rfl rfl
      · have hstep : some { t with kv := ((sqlKv sql).step t.kv (.call client (.set k token exMs nx))).1 } = some t' := by
          rw [← hstep]
          cases exMs <;> cases nx <;> simp [LockTrace.step, hk]
        cases hstep
        exact hother hk
  | mget client keys =>
    cases hstep
    refine h.frame ?_ ?_ <;> simp only [KvStore.step] <;> split
    · exact hle
    · exact hle
    · exact fun l _ hl => hl
    · exact fun l _ hl => hl
  | chunk client =>
    cases hstep
    refine h.frame ?_ ?_ <;> simp only [KvStore.step] <;> split
    · exact hle
    · split <;> exact hle
    · exact fun l _ hl => hl
    · split <;> exact fun l _ hl => hl
  | sweep =>
    cases hstep
    exact h.frame hle fun l hlasts hl => lease_sweep hl hlasts

/-- While a lease that was taken lasts, the table holds its token, whoever else releases a lock, and there is no other
such lease. -/
theorem lock_held (h : (lockTrace sql key).Reach (OnlyWithLock key) t) {l : Lease String} (hl : l ∈ t.held)
    (hlasts : t.kv.now < l.expiresAt) : SqlKv.get t.kv.store t.kv.now key = some l.token ∧
      (∀ l' ∈ t.held, t.kv.now < l'.expiresAt → l' = l) ∧
      ∀ token, token ≠ l.token → SqlKv.get (SqlKv.compareDelete t.kv.store key token) t.kv.now key = some l.token := by
  have hok : t.Ok key := by
    refine h.invariant (I := LockTrace.Ok key) (fun s hs => ?_) fun s event s' _ hok hg hstep => hok.step hg hstep
    intro l hl
    rw [show s.held = [] from hs] at hl
    cases hl
  have hlease := hok l hl hlasts
  refine ⟨get_of_lease hlease hlasts, fun l' hl' hlasts' => ?_, fun token hother => ?_⟩
  · have hlease' := hok l' hl' hlasts'
    rw [hlease] at hlease'
    exact (Option.some.inj hlease').symm
  · refine get_of_lease ?_ hlasts
    rw [lease_compareDelete, hlease]
    exact if_neg hother.symm

/-- The SQL store is the map with expiring entries: every trace of its clients is answered as the map answers it, with
sweeps anywhere or without, and so a lock has one holder while its lease lasts, whom no other release unseats. -/
theorem sqlKv_refines (sql : SqlNumbers) :
    (∀ (s : KvState) (events : List KvEvent), (sqlKv sql).results s events = (kvSpec sql).results s events) ∧
    (∀ (s : KvState) (events : List KvEvent),
      (sqlKv sql).results s (events.filter (!·.isSweep)) = (sqlKv sql).results s events) ∧
    ∀ (key : String) (t : LockTrace) (l : Lease String), (lockTrace sql key).Reach (OnlyWithLock key) t → l ∈ t.held →
      t.kv.now < l.expiresAt → SqlKv.get t.kv.store t.kv.now key = some l.token ∧
        (∀ l' ∈ t.held, t.kv.now < l'.expiresAt → l' = l) ∧
        ∀ token, token ≠ l.token → SqlKv.get (SqlKv.compareDelete t.kv.store key token) t.kv.now key = some l.token :=
  ⟨fun s events => results_eq_spec (simulates_refl s) events, results_sweepless,
    fun _ _ _ h hl hlasts => lock_held h hl hlasts⟩

def sampleNumbers : SqlNumbers := ⟨fun value delta => toString (value.toInt?.getD 0 + delta), fun value => value.toInt?.getD 0⟩

/-- A lease runs out, the next is taken over its row, and the late release of the first leaves it alone. -/
theorem sqlKv_refines_sample : ∃ (t : LockTrace) (l : Lease String), l ∈ t.held ∧ l.token = "b" ∧
    SqlKv.get t.kv.store t.kv.now "lock" = some l.token := by
  obtain ⟨t, hr, hheld⟩ := exists_reach_of_execs (S := lockTrace sampleNumbers "lock") (G := OnlyWithLock "lock")
    (fun t : LockTrace => (t.held.find? (·.token = "b")).any (fun l => decide (t.kv.now < l.expiresAt)) = true)
    [.call 0 (.set "lock" "a" (some 30) true), .call 1 (.set "lock" "b" (some 30) true), .advance 30,
      .call 1 (.set "lock" "b" (some 30) true), .sweep, .call 0 (.compareDelete "lock" "a")]
    (s := ⟨⟨0, fun _ => none, fun _ => none⟩, []⟩) rfl (by decide) (by decide)
  obtain ⟨l, hl, hlasts⟩ := (Option.any_eq_true _ _).1 hheld
  have hmem := List.mem_of_find?_eq_some hl
  have htoken : l.token = "b" := of_decide_eq_true (List.find?_some (p := fun l : Lease String => decide (l.token = "b")) hl)
  exact ⟨t, l, hmem, htoken,
    ((sqlKv_refines sampleNumbers).2.2 "lock" t l hr hmem (of_decide_eq_true hlasts)).1⟩

end Zedspaces.Web
