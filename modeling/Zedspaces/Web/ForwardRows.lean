/-
The control plane's forward rows and the supervisor's table. Every row a workspace can get holds a proxy
slot of its own, so a directive built from the rows leaves the supervisor no binding of its own to keep:
after it, a slot serves exactly the port of its row, and publicly exactly if the row is public
(`slots_refine_rows`).
-/
import Mathlib.Data.List.Pairwise
import Mathlib.Data.List.Dedup
import Zedspaces.Lib.Fallible
import Zedspaces.Web.Forwards
import Zedspaces.Supervisor.ForwardTable

namespace Zedspaces.Web

open Supervisor Lib Std

variable {e : Env} {rows rows' : List ForwardRow} {db db' : ForwardsDb} {s : Slot} {p : Port} {P : Int → Prop}

/-- The rows of a workspace: one for each port, each with a proxy slot of its own. -/
structure RowsOk (rows : List ForwardRow) : Prop where
  ports : (rows.map ForwardRow.port).Nodup
  slot : ∀ r ∈ rows, ∃ slot ∈ proxySlots, r.slot = some slot
  unique : (rows.filterMap ForwardRow.slot).Nodup

/-- The ports of the rows fit the supervisor's port type and are not 0. -/
def PortsOk (rows : List ForwardRow) : Prop := ∀ r ∈ rows, 1 ≤ r.port ∧ r.port ≤ 65535

/-- `P` holds of the ports of the rows. -/
def PortsAll (P : Int → Prop) (rows : List ForwardRow) : Prop := ∀ r ∈ rows, P r.port

theorem RowsOk.nil : RowsOk [] := ⟨List.nodup_nil, by rintro _ ⟨⟩, List.nodup_nil⟩

theorem RowsOk.filter (h : RowsOk rows) (keep : ForwardRow → Bool) : RowsOk (rows.filter keep) where
  ports := h.ports.sublist (List.filter_sublist.map _)
  slot r hr := h.slot r (List.mem_of_mem_filter hr)
  unique := h.unique.sublist (List.filter_sublist.filterMap _)

/-- Where the slots are distinct, a slot is held by one row. -/
theorem row_of_slot_of_nodup (h : (rows.filterMap ForwardRow.slot).Nodup) {r r' : ForwardRow} (hr : r ∈ rows)
    (hr' : r' ∈ rows) {slot : Slot} (hs : r.slot = some slot) (hs' : r'.slot = some slot) : r = r' := by
  rw [List.Nodup, List.pairwise_filterMap] at h
  have : Std.Symm fun a b : ForwardRow => ∀ x, a.slot = some x → ∀ y, b.slot = some y → x ≠ y :=
    ⟨fun a b hab x hx y hy => (hab y hy x hx).symm⟩
  by_contra hne
  exact h.forall hr hr' hne slot hs slot hs' rfl

theorem RowsOk.row_of_slot (h : RowsOk rows) {r r' : ForwardRow} (hr : r ∈ rows) (hr' : r' ∈ rows) {slot : Slot}
    (hs : r.slot = some slot) (hs' : r'.slot = some slot) : r = r' := row_of_slot_of_nodup h.unique hr hr' hs hs'

theorem RowsOk.row_of_port (h : RowsOk rows) {r r' : ForwardRow} (hr : r ∈ rows) (hr' : r' ∈ rows)
    (hp : r.port = r'.port) : r = r' := List.inj_on_of_nodup_map h.ports hr hr' hp

/-! ## The operations keep the rows in order -/

theorem upsert_eq_ok {row : ForwardRow} {set : ForwardRow → ForwardRow} (h : upsert rows row set = .ok rows') :
    rows' = written rows row set ∧ (rows'.filterMap ForwardRow.slot).Nodup := by
  unfold upsert at h
  split at h
  · next hu => cases h; exact ⟨rfl, of_decide_eq_true hu⟩
  · cases h

/-- A written row is a row of before, the inserted row, or the update of a row of the inserted row's port. -/
theorem mem_written {row : ForwardRow} {set : ForwardRow → ForwardRow} {r : ForwardRow}
    (hr : r ∈ written rows row set) : r ∈ rows ∨ r = row ∨ ∃ r₀ ∈ rows, r₀.port = row.port ∧ r = set r₀ := by
  unfold written at hr
  split at hr
  · obtain ⟨r₀, hr₀, rfl⟩ := List.mem_map.1 hr
    split
    · next hp => exact .inr (.inr ⟨r₀, hr₀, hp, rfl⟩)
    · exact .inl hr₀
  · rcases List.mem_append.1 hr with hr | hr
    · exact .inl hr
    · exact .inr (.inl (List.mem_singleton.1 hr))

/-- Writing a row that keeps the ports of the updated rows keeps the ports distinct. -/
theorem nodup_ports_written {row : ForwardRow} {set : ForwardRow → ForwardRow}
    (h : (rows.map ForwardRow.port).Nodup) (hset : ∀ r, r.port = row.port → (set r).port = row.port) :
    ((written rows row set).map ForwardRow.port).Nodup := by
  unfold written
  split
  · have hmap : (rows.map fun r => if r.port = row.port then set r else r).map ForwardRow.port =
        rows.map ForwardRow.port := by
      rw [List.map_map]
      refine List.map_congr_left fun r _ => ?_
      show (if r.port = row.port then set r else r).port = r.port
      split
      · next hp => rw [hset r hp, hp]
      · rfl
    rw [hmap]; exact h
  · next hany =>
    rw [List.map_append, List.map_singleton]
    refine List.nodup_append.2 ⟨h, List.nodup_singleton _, ?_⟩
    rintro p hp q hq rfl
    obtain ⟨r, hr, hrp⟩ := List.mem_map.1 hp
    rw [List.mem_singleton.1 hq] at hrp
    exact hany (List.any_eq_true.2 ⟨r, hr, by simpa using hrp⟩)

theorem RowsOk.upsert (h : RowsOk rows) {row : ForwardRow} {set : ForwardRow → ForwardRow} {slot : Slot}
    (hslot : slot ∈ proxySlots) (hrow : row.slot = some slot)
    (hset : ∀ r, r.port = row.port → (set r).port = row.port ∧ (set r).slot = some slot)
    (hup : Web.upsert rows row set = .ok rows') : RowsOk rows' := by
  obtain ⟨rfl, hunique⟩ := upsert_eq_ok hup
  refine ⟨nodup_ports_written h.ports fun r hp => (hset r hp).1, ?_, hunique⟩
  intro r hr
  rcases mem_written hr with hr | rfl | ⟨r₀, -, hp, rfl⟩
  · exact h.slot r hr
  · exact ⟨slot, hslot, hrow⟩
  · exact ⟨slot, hslot, (hset r₀ hp).2⟩

theorem PortsAll.upsert (h : PortsAll P rows) {row : ForwardRow} {set : ForwardRow → ForwardRow}
    (hrow : P row.port) (hset : ∀ r, r.port = row.port → (set r).port = row.port)
    (hup : Web.upsert rows row set = .ok rows') : PortsAll P rows' := by
  obtain ⟨rfl, -⟩ := upsert_eq_ok hup
  intro r hr
  rcases mem_written hr with hr | rfl | ⟨r₀, -, hp, rfl⟩
  · exact h r hr
  · exact hrow
  · rw [hset r₀ hp]; exact hrow

theorem allocateSlot_mem (h : RowsOk rows) {port : Int} (ha : allocateSlot rows port = .ok s) : s ∈ proxySlots := by
  unfold allocateSlot at ha
  split at ha
  · next slot hfind =>
    cases ha
    obtain ⟨r, hr, hrs⟩ := Option.bind_eq_some_iff.1 hfind
    obtain ⟨slot, hmem, hs⟩ := h.slot r (List.mem_of_find?_eq_some hr)
    cases hrs.symm.trans hs
    exact hmem
  · split at ha
    · next free hfree => cases ha; exact List.mem_of_find?_eq_some hfree
    · cases ha

theorem assertForwardablePort_eq_ok {port : Int} (h : assertForwardablePort e port = .ok ()) :
    (1 ≤ port ∧ port ≤ 65535) ∧ isInfraPort e port = false := by
  unfold assertForwardablePort at h
  split at h
  · cases h
  · split at h
    · cases h
    · next hinfra => exact ⟨by omega, eq_false_of_ne_true hinfra⟩

@[simp] theorem saveMutedPorts_rows (ports : List Int) (now : Int) : (db.saveMutedPorts ports now).rows = db.rows := rfl

/-- The rows of a workspace at rest. -/
def ForwardsDb.Ok (db : ForwardsDb) : Prop := RowsOk db.rows ∧ PortsOk db.rows

/-- The rows are in order, and `P` holds of their ports. -/
def ForwardsDb.Keeps (P : Int → Prop) (db : ForwardsDb) : Prop := RowsOk db.rows ∧ PortsAll P db.rows

/-- `P` holds of every port that can be forwarded. -/
def Forwardable (e : Env) (P : Int → Prop) : Prop := ∀ port, assertForwardablePort e port = .ok () → P port

theorem createForward_keeps (hP : Forwardable e P) (h : db.Keeps P) {ws : ForwardWorkspace}
    {request : CreateForwardRequest} {now : Int} (hc : createForward e ws request now db = .ok db') : db'.Keeps P := by
  unfold createForward at hc
  obtain ⟨⟨⟩, hport, hc⟩ := bind_eq_ok hc
  dsimp only at hc
  have hrows : (if request.port ∈ db.mutedPorts now then
      db.saveMutedPorts ((db.mutedPorts now).filter (· ≠ request.port)) now else db).rows = db.rows := by
    split <;> rfl
  rw [hrows] at hc
  obtain ⟨slot, halloc, hc⟩ := bind_eq_ok hc
  obtain ⟨url, -, hc⟩ := bind_eq_ok hc
  obtain ⟨rows, hup, hc⟩ := bind_eq_ok hc
  cases hc
  exact ⟨h.1.upsert (allocateSlot_mem h.1 halloc) rfl (fun _ _ => ⟨rfl, rfl⟩) hup,
    h.2.upsert (hP _ hport) (fun _ _ => rfl) hup⟩

theorem nextSlot_mem {kept : List ForwardRow} {existing : Option ForwardRow} {available : List Slot}
    (hkept : RowsOk kept) (hex : ∀ r, existing = some r → r ∈ kept) (havail : ∀ slot ∈ available, slot ∈ proxySlots) :
    (∀ slot, (nextSlot existing available).1 = some slot → slot ∈ proxySlots) ∧
      ∀ slot ∈ (nextSlot existing available).2, slot ∈ proxySlots := by
  unfold nextSlot
  split
  · next slot hfind =>
    refine ⟨?_, havail⟩
    rintro _ ⟨⟩
    obtain ⟨r, hr, hrs⟩ := Option.bind_eq_some_iff.1 hfind
    obtain ⟨slot', hmem, hs'⟩ := hkept.slot r (hex r hr)
    cases hrs.symm.trans hs'
    exact hmem
  · exact ⟨fun slot he => havail slot (List.mem_of_mem_head? he), fun slot hmem => havail slot (List.mem_of_mem_tail hmem)⟩

/-- What the loop over the listened ports keeps. -/
def SyncKeeps (P : Int → Prop) (st : List ForwardRow × List Slot) : Prop :=
  RowsOk st.1 ∧ PortsAll P st.1 ∧ ∀ slot ∈ st.2, slot ∈ proxySlots

theorem syncPort_keeps {ws : ForwardWorkspace} {still : List Int} {kept : List ForwardRow} {port : Int}
    {st st' : List ForwardRow × List Slot} (hkept : RowsOk kept) (hport : P port)
    (h : SyncKeeps P st) (hs : syncPort e ws still kept st port = .ok st') : SyncKeeps P st' := by
  have hnext := nextSlot_mem hkept
    (fun r (hr : kept.find? (·.port = port) = some r) => List.mem_of_find?_eq_some hr) h.2.2
  unfold syncPort at hs
  dsimp only at hs
  split at hs
  · cases hs; exact h
  · split at hs
    · cases hs; exact h
    · split at hs
      · cases hs; exact ⟨h.1, h.2.1, hnext.2⟩
      · next slot hsome =>
        split at hs
        · cases hs; exact ⟨h.1, h.2.1, hnext.2⟩
        · split at hs
          · cases hs; exact ⟨h.1, h.2.1, hnext.2⟩
          · obtain ⟨rows', hup, hs⟩ := bind_eq_ok hs
            cases hs
            exact ⟨h.1.upsert (hnext.1 slot hsome) rfl (fun _ hp => ⟨by exact hp, rfl⟩) hup,
              h.2.1.upsert hport (fun _ hp => by exact hp) hup, hnext.2⟩

theorem syncPorts_keeps {ws : ForwardWorkspace} {still : List Int} {kept : List ForwardRow} (hkept : RowsOk kept)
    {ports : List Int} (hports : ∀ port ∈ ports, P port) {st st' : List ForwardRow × List Slot}
    (h : SyncKeeps P st) (hs : ports.foldlM (syncPort e ws still kept) st = .ok st') : SyncKeeps P st' :=
  foldlM_keeps (fun port hp _ _ h hstep => syncPort_keeps hkept (hports port hp) h hstep) h hs

/-- What an effective report does: the rows of closed public ports go, then the listed ports are gone through. -/
theorem syncListeningForwards_eq_ok {ws : ForwardWorkspace} {listening : Option (List Int)} {now : Int}
    (hs : syncListeningForwards e ws listening now db = .ok db') :
    db' = db ∨ ∃ listed ports still st, listening = some listed ∧
      ports = (listed.filter fun port => !isInfraPort e port).dedup ∧
      still = (db.mutedPorts now).filter (· ∈ ports) ∧
      (ports.insertionSort (· ≤ ·)).foldlM
        (syncPort e ws still (db.rows.filter fun row => !(row.visibility = .pub && row.port ∉ ports)))
        (db.rows.filter (fun row => !(row.visibility = .pub && row.port ∉ ports)),
          proxySlots.filter fun slot => (db.rows.filter fun row => !(row.visibility = .pub && row.port ∉ ports)).all
            fun row => row.slot ≠ some slot) = .ok st ∧
      db' = { (if (db.mutedPorts now).length ≠ still.length then db.saveMutedPorts still now else db) with
        rows := st.1 } := by
  unfold syncListeningForwards at hs
  split at hs
  · cases hs; exact .inl rfl
  · rename_i listed
    split at hs
    · cases hs; exact .inl rfl
    · dsimp only at hs
      have hrows : ∀ (c : Prop) [Decidable c] (ports : List Int), (if c then db.saveMutedPorts ports now else db).rows =
          db.rows := fun c _ ports => by split <;> rfl
      rw [hrows] at hs
      obtain ⟨st, hst, hs⟩ := bind_eq_ok hs
      cases hs
      exact .inr ⟨listed, _, _, st, rfl, rfl, rfl, hst, rfl⟩

theorem syncListeningForwards_keeps (h : db.Keeps P) {ws : ForwardWorkspace} {listening : Option (List Int)} {now : Int}
    (hports : ∀ ports, listening = some ports → ∀ port ∈ ports, isInfraPort e port = false → P port)
    (hs : syncListeningForwards e ws listening now db = .ok db') : db'.Keeps P := by
  rcases syncListeningForwards_eq_ok hs with rfl | ⟨listed, ports, still, st, hlistening, rfl, -, hst, rfl⟩
  · exact h
  · have hlisted : ∀ port ∈ (listed.filter fun port => !isInfraPort e port).dedup.insertionSort (· ≤ ·), P port := by
      intro port hp
      obtain ⟨hp, hinfra⟩ := List.mem_filter.1 (List.mem_dedup.1 ((List.mem_insertionSort _).1 hp))
      exact hports listed hlistening port hp (by simpa using hinfra)
    have hsync := syncPorts_keeps (h.1.filter _) hlisted ⟨h.1.filter _, fun r hr => h.2 r (List.mem_of_mem_filter hr),
      fun slot hslot => by dsimp only at hslot; exact (List.mem_filter.1 hslot).1⟩ hst
    exact ⟨hsync.1, hsync.2.1⟩

theorem removeForward_keeps (h : db.Keeps P) {port now : Int} (hr : removeForward e port now db = .ok db') :
    db'.Keeps P := by
  unfold removeForward at hr
  obtain ⟨⟨⟩, -, hr⟩ := bind_eq_ok hr
  cases hr
  exact ⟨h.1.filter _, fun r hmem => h.2 r (List.mem_of_mem_filter hmem)⟩

/-! ## Any sequence of calls -/

/-- The call reports listened ports in `1..65535` only. -/
def ForwardCall.ListsPorts : ForwardCall → Prop
  | .sync _ listening _ => ∀ ports, listening = some ports → ∀ port ∈ ports, 1 ≤ port ∧ port ≤ 65535
  | _ => True

/-- `P` holds of the ports that a reported list can make rows of. -/
def ForwardCall.Lists (e : Env) (P : Int → Prop) : ForwardCall → Prop
  | .sync _ listening _ => ∀ ports, listening = some ports → ∀ port ∈ ports, isInfraPort e port = false → P port
  | _ => True

theorem apply_keeps (hP : Forwardable e P) (h : db.Keeps P) (call : ForwardCall) (hlists : call.Lists e P) :
    (db.apply e call).Keeps P := by
  unfold ForwardsDb.apply
  split
  · next db' hc =>
    cases call with
    | create ws request now => exact createForward_keeps hP h hc
    | sync ws listening now => exact syncListeningForwards_keeps h hlists hc
    | remove port now => exact removeForward_keeps h hc
  · exact h

theorem applyAll_keeps (hP : Forwardable e P) {calls : List ForwardCall} (h : db.Keeps P)
    (hlists : ∀ call ∈ calls, call.Lists e P) : (calls.foldl (ForwardsDb.apply e) db).Keeps P := by
  induction calls generalizing db with
  | nil => exact h
  | cons call calls ih =>
    exact ih (apply_keeps hP h call (hlists call (List.mem_cons_self ..))) fun c hc =>
      hlists c (List.mem_cons_of_mem _ hc)

theorem ForwardCall.ListsPorts.lists {call : ForwardCall} (h : call.ListsPorts) :
    call.Lists e fun port => 1 ≤ port ∧ port ≤ 65535 := by
  cases call with
  | sync ws listening now => exact fun ports hl port hmem _ => h ports hl port hmem
  | create ws request now => trivial
  | remove port now => trivial

theorem forwardsAfter_ok {calls : List ForwardCall} (hports : ∀ call ∈ calls, call.ListsPorts) :
    (forwardsAfter e calls).Ok := by
  have hP : Forwardable e fun port => 1 ≤ port ∧ port ≤ 65535 := fun port h => (assertForwardablePort_eq_ok h).1
  exact applyAll_keeps hP ⟨RowsOk.nil, by rintro _ ⟨⟩⟩ fun call hc => (hports call hc).lists

/-! ## What the supervisor makes of the rows -/

/-- A row in order as the supervisor reads it. -/
def ForwardRow.decoded (row : ForwardRow) : Forward := ⟨row.port.toNat, row.visibility, row.label, row.url, row.slot⟩

theorem proxySlots_le : ∀ slot ∈ proxySlots, slot ≤ 65535 := by decide

theorem decodeForwards_views (h : db.Ok) : ∃ sorted : List ForwardRow, sorted.Perm db.rows ∧
    decodeForwards (forwardViews db) = some (sorted.map ForwardRow.decoded) := by
  have hperm := List.perm_insertionSort (fun a b : ForwardRow => a.port ≤ b.port) db.rows
  refine ⟨_, hperm, ?_⟩
  have hdec : ∀ rows : List ForwardRow, (∀ r ∈ rows, r ∈ db.rows) →
      decodeForwards (rows.map toForwardView) = some (rows.map ForwardRow.decoded) := by
    intro rows hrows
    induction rows with
    | nil => rfl
    | cons r rows ih =>
      have hport := h.2 r (hrows r (List.mem_cons_self ..))
      obtain ⟨slot, hslot, hrs⟩ := h.1.slot r (hrows r (List.mem_cons_self ..))
      have hr : (toForwardView r).decode = some r.decoded := by
        refine if_pos ⟨by show (0 : Int) ≤ r.port; omega, hport.2, ?_⟩
        show r.slot.all (· ≤ 65535) = true
        rw [hrs]
        simpa using proxySlots_le slot hslot
      have ih := ih fun r' hr' => hrows r' (List.mem_cons_of_mem _ hr')
      rw [decodeForwards] at ih
      rw [List.map_cons, decodeForwards, List.mapM_cons, hr]
      show (do let t ← (rows.map toForwardView).mapM ForwardView.decode; pure (r.decoded :: t)) = _
      rw [ih]; rfl
  exact hdec _ fun r hr => hperm.mem_iff.1 hr

/-- The decoded rows by port. -/
theorem collect_decoded (h : db.Ok) {sorted : List ForwardRow} (hperm : sorted.Perm db.rows) {f : Forward} :
    (collect (sorted.map ForwardRow.decoded))[p]? = some f ↔ ∃ r ∈ db.rows, r.port = p ∧ r.decoded = f := by
  have hcast : ∀ r ∈ db.rows, r.decoded.port = p ↔ r.port = (p : Int) := by
    intro r hr
    have := h.2 r hr
    show r.port.toNat = p ↔ _
    omega
  rw [collect, Maps.getElem?_writeAll]
  constructor
  · rintro (⟨g, hg, rfl⟩ | ⟨-, hf⟩)
    · obtain ⟨hmem, hp⟩ := hg.mem
      obtain ⟨r, hr, rfl⟩ := List.mem_map.1 hmem
      have hr := hperm.mem_iff.1 hr
      exact ⟨r, hr, (hcast r hr).1 (Option.some.inj hp), rfl⟩
    · simp at hf
  · rintro ⟨r, hr, hp, rfl⟩
    have hmem : r.decoded ∈ sorted.map ForwardRow.decoded := List.mem_map_of_mem (hperm.mem_iff.2 hr)
    obtain ⟨g, hg⟩ : ∃ g, Maps.LastWriter (fun f : Forward => some f.port) _ p g :=
      Maps.exists_lastWriter hmem (congrArg some ((hcast r hr).2 hp))
    obtain ⟨hgmem, hgp⟩ := hg.mem
    obtain ⟨r', hr', rfl⟩ := List.mem_map.1 hgmem
    have hr' := hperm.mem_iff.1 hr'
    have heq : r' = r := h.1.row_of_port hr' hr (((hcast r' hr').1 (Option.some.inj hgp)).trans hp.symm)
    exact .inl ⟨_, hg, congrArg ForwardRow.decoded heq⟩

theorem claims_decoded (h : db.Ok) {sorted : List ForwardRow} (hperm : sorted.Perm db.rows) :
    Claims Supervisor.proxySlots (collect (sorted.map ForwardRow.decoded)) s p ↔
      ∃ r ∈ db.rows, r.port = p ∧ r.slot = some s := by
  unfold Claims
  constructor
  · rintro ⟨f, hf, hs, -⟩
    obtain ⟨r, hr, hp, rfl⟩ := (collect_decoded h hperm).1 hf
    exact ⟨r, hr, hp, hs⟩
  · rintro ⟨r, hr, hp, hs⟩
    obtain ⟨slot, hmem, hslot⟩ := h.1.slot r hr
    cases hs.symm.trans hslot
    exact ⟨r.decoded, (collect_decoded h hperm).2 ⟨r, hr, hp, rfl⟩, hs, hmem⟩

theorem wins_decoded (h : db.Ok) {sorted : List ForwardRow} (hperm : sorted.Perm db.rows) :
    Wins Supervisor.proxySlots (collect (sorted.map ForwardRow.decoded)) s p ↔
      ∃ r ∈ db.rows, r.port = p ∧ r.slot = some s := by
  rw [Wins, claims_decoded h hperm]
  refine ⟨And.left, fun hr => ⟨hr, fun p' hp' => ?_⟩⟩
  obtain ⟨r, hr, hp, hs⟩ := hr
  obtain ⟨r', hr', hp', hs'⟩ := (claims_decoded h hperm).1 hp'
  have heq := h.1.row_of_slot hr hr' hs hs'
  subst heq
  exact Nat.le_of_eq (Int.natCast_inj.1 (hp'.symm.trans hp))

/-- After the directive, each slot serves the port of its row and publicly exactly a public one, whatever
calls wrote the rows and whatever the supervisor's table was. -/
theorem slots_refine_rows (e : Env) (calls : List ForwardCall) (hports : ∀ call ∈ calls, call.ListsPorts)
    (ops : List ForwardOp) :
    ∃ list, decodeForwards (forwardViews (forwardsAfter e calls)) = some list ∧
      let st := (ForwardsState.withSlots Supervisor.proxySlots).run ops
      let st' := (st.replaceIfUnchanged list (some st.generation)).1
      ∀ s p, (st'.inner.slotPort s = some p ↔ ∃ r ∈ (forwardsAfter e calls).rows, r.port = p ∧ r.slot = some s) ∧
        (st'.inner.publicSlotPort s = some p ↔
          ∃ r ∈ (forwardsAfter e calls).rows, r.port = p ∧ r.slot = some s ∧ r.visibility = .pub) := by
  have h : (forwardsAfter e calls).Ok := forwardsAfter_ok hports
  obtain ⟨sorted, hperm, hlist⟩ := decodeForwards_views h
  refine ⟨_, hlist, ?_⟩
  intro st st' s p
  have hb : st.inner.Bound := ForwardsState.run_bound ForwardsState.withSlots_bound ops
  have hknown : st.inner.knownSlots = Supervisor.proxySlots := ForwardsState.run_knownSlots ops
  have hinner : st'.inner = st.inner.replaced (sorted.map ForwardRow.decoded) := by
    have hacc : (some st.generation).all (st.changed = ·) = true := by simp [ForwardsState.generation]
    show (st.replaceIfUnchanged _ _).1.inner = _
    rw [ForwardsState.replaceIfUnchanged, if_pos hacc]
    exact ForwardsInner.replace_fst _
  have hslots : ∀ s, st'.inner.slotPort s = some p ↔ ∃ r ∈ (forwardsAfter e calls).rows, r.port = p ∧ r.slot = some s := by
    intro s
    rw [hinner, ForwardsInner.slotPort, hb.replaced_slots, hknown, wins_decoded h hperm]
    refine or_iff_left ?_
    -- a surviving binding would be of a listed port, but that port holds the slot of its row
    rintro ⟨-, hpriv, -, hno⟩
    obtain ⟨f, hf, -⟩ := (Option.any_eq_true _ _).1 hpriv
    obtain ⟨r, hr, hp, -⟩ := (collect_decoded h hperm).1 hf
    obtain ⟨slot, -, hs⟩ := h.1.slot r hr
    exact hno slot (hknown ▸ (wins_decoded h hperm).2 ⟨r, hr, hp, hs⟩)
  refine ⟨hslots s, ?_⟩
  rw [ForwardsInner.publicSlotPort_eq_some, hslots s]
  have hvis : ∀ f, st'.inner.forwards[p]? = some f →
      ∃ r ∈ (forwardsAfter e calls).rows, r.port = p ∧ r.visibility = f.visibility := by
    intro f hf
    rw [hinner] at hf
    rcases hb.replaced_forwards.1 hf with ⟨_, g, -, hg, rfl⟩ | ⟨-, hg⟩
    all_goals
      obtain ⟨r, hr, hp, rfl⟩ := (collect_decoded h hperm).1 hg
      exact ⟨r, hr, hp, rfl⟩
  constructor
  · rintro ⟨⟨r, hr, hp, hs⟩, f, hf, hpub⟩
    obtain ⟨r', hr', hp', hv⟩ := hvis f hf
    cases h.1.row_of_port hr hr' (hp.trans hp'.symm)
    exact ⟨r, hr, hp, hs, hv.trans hpub⟩
  · rintro ⟨r, hr, hp, hs, hpub⟩
    have hslot := (hslots s).2 ⟨r, hr, hp, hs⟩
    have hbound : st'.inner.Bound := hinner ▸ hb.replaced _
    obtain ⟨f, hf, -⟩ := hbound.bound s p hslot
    obtain ⟨r', hr', hp', hv⟩ := hvis f hf
    cases h.1.row_of_port hr hr' (hp.trans hp'.symm)
    exact ⟨⟨r, hr, hp, hs⟩, f, hf, hv ▸ hpub⟩

/-- A listening dev server and a private forward, told to a fresh supervisor. -/
theorem slots_refine_rows_two :
    let e := sampleEnv
    let ws : ForwardWorkspace := ⟨"w", .running, some [(8444, "a.z"), (8445, "b.z")]⟩
    let calls := [ForwardCall.sync ws (some [3000]) 0, .create ws ⟨4000, .priv, none⟩ 1]
    ∃ list, decodeForwards (forwardViews (forwardsAfter e calls)) = some list ∧
      let st := ((ForwardsState.withSlots Supervisor.proxySlots).replaceIfUnchanged list (some 0)).1
      st.inner.publicSlotPort 8444 = some 3000 ∧ st.inner.slotPort 8445 = some 4000 := by
  intro e ws calls
  have hports : ∀ call ∈ calls, call.ListsPorts := by
    intro call hcall
    rcases List.mem_pair.1 hcall with rfl | rfl
    · rintro _ ⟨⟩ port hport
      rw [List.mem_singleton.1 hport]
      decide
    · trivial
  have hrows : (forwardsAfter e calls).rows = [⟨3000, .pub, none, some "https://a.z", some 8444⟩,
      ⟨4000, .priv, none, some "https://z/api/workspaces/w/ports/4000/open", some 8445⟩] := by decide
  obtain ⟨list, hlist, h⟩ := slots_refine_rows e calls hports []
  refine ⟨list, hlist, (h 8444 3000).2.2 ⟨_, hrows ▸ List.mem_cons_self .., rfl, rfl, rfl⟩, (h 8445 4000).1.2 ?_⟩
  exact ⟨_, hrows ▸ List.mem_cons_of_mem _ (List.mem_cons_self ..), rfl, rfl⟩

end Zedspaces.Web
