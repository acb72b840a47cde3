/-
What any sequence of forward calls keeps. The rows hold distinct proxy slots and no platform port, a report of
listened ports leaves private rows and the slots of the rows it keeps alone, and a port the user unforwarded has no
row while its mute lasts: every later call writes the mute again with a later end, or leaves it (`Muted`).
-/
import Zedspaces.Web.ForwardRows

namespace Zedspaces.Web

open Supervisor Lib

variable {e : Env} {rows rows' : List ForwardRow} {db db' : ForwardsDb} {P : Int → Prop}

/-- A port an app can be forwarded from. -/
def AppPort (e : Env) (port : Int) : Prop := (1 ≤ port ∧ port ≤ 65535) ∧ isInfraPort e port = false

theorem forwardable_appPort : Forwardable e (AppPort e) := fun _ h => assertForwardablePort_eq_ok h

theorem ForwardCall.ListsPorts.appPorts {call : ForwardCall} (h : call.ListsPorts) : call.Lists e (AppPort e) := by
  cases call with
  | sync ws listening now => exact fun ports hl port hmem hinfra => ⟨h ports hl port hmem, hinfra⟩
  | create ws request now => trivial
  | remove port now => trivial

theorem forwardsAfter_appPorts {calls : List ForwardCall} (hports : ∀ call ∈ calls, call.ListsPorts) :
    (forwardsAfter e calls).Keeps (AppPort e) :=
  applyAll_keeps forwardable_appPort ⟨RowsOk.nil, by rintro _ ⟨⟩⟩ fun call hc => (hports call hc).appPorts

/-! ## What a report leaves alone -/

/-- The rows still hold the private ones of `kept`, and every port of both its slot. -/
structure Retains (kept rows : List ForwardRow) : Prop where
  priv : ∀ r ∈ kept, r.visibility = .priv → r ∈ rows
  slot : ∀ r ∈ kept, ∀ r' ∈ rows, r.port = r'.port → r'.slot = r.slot

theorem Retains.refl (h : RowsOk rows) : Retains rows rows where
  priv _ hr _ := hr
  slot _ hr _ hr' hp := by rw [h.row_of_port hr hr' hp]

/-- A row of another port stays where it is. -/
theorem mem_written_of_ne {row r : ForwardRow} {set : ForwardRow → ForwardRow} (hr : r ∈ rows)
    (hp : r.port ≠ row.port) : r ∈ written rows row set := by
  unfold written
  split
  · exact List.mem_map.2 ⟨r, hr, if_neg hp⟩
  · exact List.mem_append_left _ hr

variable {ws : ForwardWorkspace} {still : List Int} {kept : List ForwardRow} {st st' : List ForwardRow × List Slot}
  {port now : Int}

/-- What one listened port may do to the rows: nothing, or write its own public row. -/
theorem syncPort_cases (hs : syncPort e ws still kept st port = .ok st') :
    st'.1 = st.1 ∨
    (port ∉ still ∧ (∀ r, kept.find? (·.port = port) = some r → r.visibility ≠ .priv) ∧ ∃ slot url,
      (nextSlot (kept.find? (·.port = port)) st.2).1 = some slot ∧
      upsert st.1 ⟨port, .pub, none, some url, some slot⟩
        (fun row => { row with slot := some slot, url := some url }) = .ok st'.1) := by
  unfold syncPort at hs
  dsimp only at hs
  split at hs
  · cases hs; exact .inl rfl
  · rename_i hstill
    split at hs
    · cases hs; exact .inl rfl
    · rename_i hpriv
      split at hs
      · cases hs; exact .inl rfl
      · rename_i slot hslot
        split at hs
        · cases hs; exact .inl rfl
        · rename_i url _
          split at hs
          · cases hs; exact .inl rfl
          · obtain ⟨rows, hup, hs⟩ := bind_eq_ok hs
            cases hs
            refine .inr ⟨hstill, fun r hr hv => hpriv ?_, slot, url, hslot, hup⟩
            rw [hr]
            exact decide_eq_true hv

/-- A port's row keeps its slot. -/
theorem nextSlot_of_row (hkept : RowsOk kept) {r : ForwardRow} {available : List Slot} {slot : Slot}
    (hr : kept.find? (·.port = port) = some r)
    (hs : (nextSlot (kept.find? (·.port = port)) available).1 = some slot) : r.slot = some slot := by
  obtain ⟨held, -, hheld⟩ := hkept.slot r (List.mem_of_find?_eq_some hr)
  rw [hr, nextSlot, Option.bind_some, hheld] at hs
  rw [hheld]
  exact hs

theorem find?_port (hkept : RowsOk kept) {r : ForwardRow} (hr : r ∈ kept) (hp : r.port = port) :
    kept.find? (·.port = port) = some r := by
  cases hfind : kept.find? (·.port = port) with
  | none => exact absurd (decide_eq_true hp) (List.find?_eq_none.1 hfind r hr)
  | some r' =>
    have hport : r'.port = port := by simpa using List.find?_some hfind
    rw [hkept.row_of_port (List.mem_of_find?_eq_some hfind) hr (hport.trans hp.symm)]

theorem Retains.syncPort (hkept : RowsOk kept) (h : Retains kept st.1)
    (hs : syncPort e ws still kept st port = .ok st') : Retains kept st'.1 := by
  rcases syncPort_cases hs with heq | ⟨-, hpriv, slot, url, hslot, hup⟩
  · rw [heq]; exact h
  · obtain ⟨hrows, -⟩ := upsert_eq_ok hup
    rw [hrows]
    constructor
    · intro r hr hv
      refine mem_written_of_ne (h.priv r hr hv) fun hp => ?_
      exact hpriv r (find?_port hkept hr hp) hv
    · intro r hr r' hr' hp
      have hown : ∀ port', port' = port → r.port = port' → r.slot = some slot := fun _ he hp =>
        nextSlot_of_row hkept (find?_port hkept hr (hp.trans he)) hslot
      rcases mem_written hr' with hr' | rfl | ⟨r₀, -, hport, rfl⟩
      · exact h.slot r hr r' hr' hp
      · exact (hown _ rfl hp).symm
      · exact (hown _ hport hp).symm

theorem syncPorts_retains (hkept : RowsOk kept) {ports : List Int} (h : Retains kept st.1)
    (hs : ports.foldlM (syncPort e ws still kept) st = .ok st') : Retains kept st'.1 :=
  foldlM_keeps (fun _ _ _ _ h hstep => Retains.syncPort hkept h hstep) h hs

/-- A report keeps the private rows, and the slot of every row whose port has one afterwards. -/
theorem syncListeningForwards_retains (h : RowsOk db.rows) {listening : Option (List Int)}
    (hs : syncListeningForwards e ws listening now db = .ok db') : Retains db.rows db'.rows := by
  rcases syncListeningForwards_eq_ok hs with rfl | ⟨listed, ports, still, st, -, -, -, hst, rfl⟩
  · exact .refl h
  · set kept := db.rows.filter fun row => !(row.visibility = .pub && row.port ∉ ports) with hkept
    have hkeptOk : RowsOk kept := h.filter _
    have hret : Retains kept st.1 := syncPorts_retains hkeptOk (.refl hkeptOk) hst
    -- a port of a row afterwards is listed or was kept, so the row of a closed port has no successor
    have hports : PortsAll (fun port => port ∈ ports ∨ ∃ r ∈ kept, r.port = port) st.1 := by
      refine (syncPorts_keeps hkeptOk (fun port hp => .inl ((List.mem_insertionSort _).1 hp)) ?_ hst).2.1
      exact ⟨hkeptOk, fun r hr => .inr ⟨r, hr, rfl⟩, fun slot hslot => (List.mem_filter.1 hslot).1⟩
    have hmem : ∀ r, r ∈ kept ↔ r ∈ db.rows ∧ (r.visibility = .pub → r.port ∈ ports) := by
      intro r
      rw [hkept, List.mem_filter]
      simp only [Bool.not_eq_true', Bool.and_eq_false_iff, decide_eq_false_iff_not, not_not]
      tauto
    constructor
    · intro r hr hv
      exact hret.priv r ((hmem r).2 ⟨hr, fun hpub => by rw [hv] at hpub; cases hpub⟩) hv
    · intro r hr r' hr' hp
      refine hret.slot r ((hmem r).2 ⟨hr, fun _ => ?_⟩) r' hr' hp
      rcases hports r' hr' with hlisted | ⟨r'', hr'', hp''⟩
      · rw [hp]; exact hlisted
      · obtain ⟨hrow, hpub⟩ := (hmem r'').1 hr''
        cases h.row_of_port hr hrow (hp.trans hp''.symm)
        exact hpub ‹_›

/-! ## A muted port stays off -/

/-- How long a mute lasts, in milliseconds. -/
def muteTtlMs : Int := 30 * 86400000

/-- The port is muted until `muteTtlMs` after `since` at the least, and has no row. -/
structure Muted (port since : Int) (db : ForwardsDb) : Prop where
  entry : ∃ ports expiresAt, db.muted = some (ports, some expiresAt) ∧ port ∈ ports ∧ since + muteTtlMs ≤ expiresAt
  off : PortsAll (· ≠ port) db.rows

/-- The time of a call. -/
def ForwardCall.time : ForwardCall → Int
  | .create _ _ now => now
  | .sync _ _ now => now
  | .remove _ now => now

/-- The call may bring an unforwarded port back: the user forwards it, or a report does not list it. -/
def ForwardCall.Unmutes (port : Int) : ForwardCall → Prop
  | .create _ request _ => request.port = port
  | .sync _ listening _ => ∃ listed, listening = some listed ∧ port ∉ listed
  | .remove _ _ => False

section
variable {since : Int}

theorem Muted.mem (h : Muted port since db) (hnow : now < since + muteTtlMs) : port ∈ db.mutedPorts now := by
  obtain ⟨ports, expiresAt, hmuted, hmem, hexpires⟩ := h.entry
  have hlive : (some expiresAt).all (now < ·) = true := decide_eq_true (lt_of_lt_of_le hnow hexpires)
  rw [ForwardsDb.mutedPorts, hmuted]
  dsimp only
  rw [if_pos hlive]
  exact hmem

/-- A mute that is written again ends later. -/
theorem muted_save {ports : List Int} (hmem : port ∈ ports) (hnow : since ≤ now) (hoff : PortsAll (· ≠ port) rows) :
    Muted port since { db.saveMutedPorts ports now with rows } := by
  refine ⟨⟨ports, now + muteTtlMs, ?_, hmem, by omega⟩, hoff⟩
  show (if ports = [] then none else some (ports, some (now + 30 * 86400000))) = _
  rw [if_neg (List.ne_nil_of_mem hmem)]
  rfl

theorem Muted.withRows (h : Muted port since db) (hoff : PortsAll (· ≠ port) rows) :
    Muted port since { db with rows } := ⟨h.entry, hoff⟩

theorem Muted.createForward (h : Muted port since db) {request : CreateForwardRequest} (hport : request.port ≠ port)
    (hsince : since ≤ now) (hnow : now < since + muteTtlMs) (hc : createForward e ws request now db = .ok db') :
    Muted port since db' := by
  unfold Web.createForward at hc
  obtain ⟨⟨⟩, -, hc⟩ := bind_eq_ok hc
  dsimp only at hc
  obtain ⟨slot, -, hc⟩ := bind_eq_ok hc
  obtain ⟨url, -, hc⟩ := bind_eq_ok hc
  obtain ⟨rows', hup, hc⟩ := bind_eq_ok hc
  cases hc
  have hmem : port ∈ (db.mutedPorts now).filter (· ≠ request.port) :=
    List.mem_filter.2 ⟨h.mem hnow, decide_eq_true hport.symm⟩
  split at hup
  · rw [if_pos ‹_›]
    exact muted_save hmem hsince (PortsAll.upsert (P := (· ≠ port)) h.off hport (fun _ _ => rfl) hup)
  · rw [if_neg ‹_›]
    exact h.withRows (PortsAll.upsert (P := (· ≠ port)) h.off hport (fun _ _ => rfl) hup)

theorem syncPorts_off {ports : List Int} (hmuted : port ∈ still) (h : PortsAll (· ≠ port) st.1)
    (hs : ports.foldlM (syncPort e ws still kept) st = .ok st') : PortsAll (· ≠ port) st'.1 := by
  refine foldlM_keeps (P := fun st => PortsAll (· ≠ port) st.1) (fun listed _ st st₁ h h₁ => ?_) h hs
  rcases syncPort_cases h₁ with heq | ⟨hstill, -, slot, url, -, hup⟩
  · rw [heq]
    exact h
  · have hne : listed ≠ port := by
      rintro rfl
      exact hstill hmuted
    exact PortsAll.upsert (P := (· ≠ port)) h hne (fun _ hp => by rw [hp]) hup

theorem Muted.syncListeningForwards (h : Muted port since db) (happ : isInfraPort e port = false)
    {listening : Option (List Int)} (hlisted : ∀ listed, listening = some listed → port ∈ listed) (hsince : since ≤ now)
    (hnow : now < since + muteTtlMs) (hs : syncListeningForwards e ws listening now db = .ok db') :
    Muted port since db' := by
  rcases syncListeningForwards_eq_ok hs with rfl | ⟨listed, ports, still, st, rfl, rfl, rfl, hst, rfl⟩
  · exact h
  · have hmem : port ∈ (listed.filter fun port => !isInfraPort e port).dedup := by
      rw [List.mem_dedup, List.mem_filter, happ]
      exact ⟨hlisted listed rfl, rfl⟩
    have hstill : port ∈ (db.mutedPorts now).filter (· ∈ (listed.filter fun port => !isInfraPort e port).dedup) :=
      List.mem_filter.2 ⟨h.mem hnow, decide_eq_true hmem⟩
    have hoff := syncPorts_off hstill (fun r hr => h.off r (List.mem_of_mem_filter hr)) hst
    split
    · exact muted_save hstill hsince hoff
    · exact h.withRows hoff

theorem Muted.removeForward (h : Muted port since db) {other : Int} (hsince : since ≤ now)
    (hnow : now < since + muteTtlMs) (hr : removeForward e other now db = .ok db') : Muted port since db' := by
  unfold Web.removeForward at hr
  obtain ⟨⟨⟩, -, hr⟩ := bind_eq_ok hr
  cases hr
  exact muted_save (List.mem_insert_of_mem (h.mem hnow)) hsince fun r hmem => h.off r (List.mem_of_mem_filter hmem)

theorem Muted.apply (h : Muted port since db) (happ : isInfraPort e port = false) {call : ForwardCall}
    (hsince : since ≤ call.time) (hnow : call.time < since + muteTtlMs) (hcall : ¬ call.Unmutes port) :
    Muted port since (db.apply e call) := by
  unfold ForwardsDb.apply
  split
  · rename_i db' hc
    cases call with
    | create ws request now => exact h.createForward hcall hsince hnow hc
    | sync ws listening now =>
      refine h.syncListeningForwards happ (fun listed hl => ?_) hsince hnow hc
      by_contra hmem
      exact hcall ⟨listed, hl, hmem⟩
    | remove other now => exact h.removeForward hsince hnow hc
  · exact h

theorem Muted.applyAll (h : Muted port since db) (happ : isInfraPort e port = false) {calls : List ForwardCall}
    (hcalls : ∀ call ∈ calls, since ≤ call.time ∧ call.time < since + muteTtlMs ∧ ¬ call.Unmutes port) :
    Muted port since (calls.foldl (ForwardsDb.apply e) db) := by
  induction calls generalizing db with
  | nil => exact h
  | cons call calls ih =>
    obtain ⟨hsince, hnow, hcall⟩ := hcalls call (List.mem_cons_self ..)
    exact ih (h.apply happ hsince hnow hcall) fun c hc => hcalls c (List.mem_cons_of_mem _ hc)

/-- Removing a port that can be forwarded mutes it. -/
theorem muted_of_remove (happ : AppPort e port) : Muted port since (db.apply e (.remove port since)) := by
  have hassert : assertForwardablePort e port = .ok () := by
    unfold assertForwardablePort
    rw [if_neg (by have := happ.1; omega), happ.2]
    rfl
  have hrun : ForwardCall.run e db (.remove port since) =
      .ok { db.saveMutedPorts ((db.mutedPorts since).insert port) since with rows := db.rows.filter (·.port ≠ port) } := by
    show removeForward e port since db = _
    unfold Web.removeForward
    rw [hassert]
    rfl
  unfold ForwardsDb.apply
  rw [hrun]
  refine muted_save (List.mem_insert_self ..) le_rfl fun r hr => ?_
  simpa using (List.mem_filter.1 hr).2

end

/-! ## Any sequence of calls -/

/-- After any calls: every row has a proxy slot no other row has and no platform port, a report keeps the private rows
and the slots of the rows it keeps, and a removed port has no row while its mute lasts. -/
theorem forward_rows_kept (e : Env) (calls : List ForwardCall) (hports : ∀ call ∈ calls, call.ListsPorts) :
    let db := forwardsAfter e calls
    (db.rows.filterMap ForwardRow.slot).Nodup ∧ (∀ r ∈ db.rows, ∃ slot ∈ proxySlots, r.slot = some slot) ∧
    (∀ r ∈ db.rows, isInfraPort e r.port = false) ∧
    (∀ ws listening now, Retains db.rows (db.apply e (.sync ws listening now)).rows) ∧
    ∀ (port since : Int) (later : List ForwardCall),
      (∀ call ∈ later, call.ListsPorts ∧ since ≤ call.time ∧ call.time < since + muteTtlMs ∧ ¬ call.Unmutes port) →
        ∀ r ∈ (later.foldl (ForwardsDb.apply e) (db.apply e (.remove port since))).rows, r.port ≠ port := by
  intro db
  have hdb : db.Keeps (AppPort e) := forwardsAfter_appPorts hports
  refine ⟨hdb.1.unique, hdb.1.slot, fun r hr => (hdb.2 r hr).2, fun ws listening now => ?_, fun port since later h => ?_⟩
  · unfold ForwardsDb.apply
    split
    · rename_i db' hs
      exact syncListeningForwards_retains hdb.1 hs
    · exact .refl hdb.1
  · by_cases happ : AppPort e port
    · exact ((muted_of_remove happ).applyAll happ.2 fun call hc => (h call hc).2).off
    · -- a port that cannot be forwarded never has a row
      have hkeeps : (later.foldl (ForwardsDb.apply e) (db.apply e (.remove port since))).Keeps (AppPort e) :=
        applyAll_keeps forwardable_appPort (apply_keeps forwardable_appPort hdb _ trivial)
          fun call hc => (h call hc).1.appPorts
      rintro r hr rfl
      exact happ (hkeeps.2 r hr)

/-- Two listening servers, one of which the user unforwards while it goes on listening. -/
theorem forward_rows_kept_two :
    let ws : ForwardWorkspace := ⟨"w", .running, some [(8444, "a.z"), (8445, "b.z")]⟩
    let db := forwardsAfter sampleEnv [.sync ws (some [3000, 4000]) 0, .remove 3000 5, .sync ws (some [3000, 4000]) 10]
    db.rows = [⟨4000, .pub, none, some "https://b.z", some 8445⟩] ∧ ∀ r ∈ db.rows, r.port ≠ 3000 := by
  intro ws db
  have hlist : ∀ now, (ForwardCall.sync ws (some [3000, 4000]) now).ListsPorts := by
    rintro now _ ⟨⟩ port hport
    rcases List.mem_pair.1 hport with rfl | rfl <;> decide
  have hports : ∀ call ∈ [ForwardCall.sync ws (some [3000, 4000]) 0], call.ListsPorts :=
    List.forall_mem_singleton.2 (hlist 0)
  have hmuted : ∀ call ∈ [ForwardCall.sync ws (some [3000, 4000]) 10],
      call.ListsPorts ∧ 5 ≤ call.time ∧ call.time < 5 + muteTtlMs ∧ ¬ call.Unmutes 3000 := by
    refine List.forall_mem_singleton.2 ⟨hlist 10, by decide, by decide, ?_⟩
    rintro ⟨_, ⟨⟩, hport⟩
    exact hport (by decide)
  have hkept := (forward_rows_kept sampleEnv _ hports).2.2.2.2 3000 5 _ hmuted
  -- the calls before the removal and after it are one history
  rw [← List.foldl_cons, forwardsAfter, ← List.foldl_append] at hkept
  exact ⟨by decide, hkept⟩

end Zedspaces.Web
