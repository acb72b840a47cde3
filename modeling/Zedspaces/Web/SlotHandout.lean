/-
How a report of listened ports hands out the free slots. One pass over the ports takes the next free slot for every
port that has none; where that slot has no host the port goes without, and the slot is not offered again. What the
pass leaves is described port by port (`syncPorts_spec`): no free slot that has a host stays unused while a port goes
without, exactly if all slots handed out had a host or none left over has one; and the same report once more changes
nothing (`sync_conserves`).
-/
import Zedspaces.Web.ForwardHistory

namespace Zedspaces.Web

open Supervisor Lib

variable {e : Env} {ws : ForwardWorkspace} {rows rows' kept : List ForwardRow} {still ports : List Int} {port : Int}
  {slot : Slot}

/-! ## Rows by port -/

/-- The two unique indexes of the table. -/
structure Indexed (rows : List ForwardRow) : Prop where
  ports : (rows.map ForwardRow.port).Nodup
  slots : uniqueSlots rows = true

def rowOf (rows : List ForwardRow) (port : Int) : Option ForwardRow := rows.find? (·.port = port)

theorem rowOf_some {r : ForwardRow} (h : rowOf rows port = some r) : r ∈ rows ∧ r.port = port :=
  ⟨List.mem_of_find?_eq_some h, by simpa using List.find?_some h⟩

theorem Indexed.rowOf (h : Indexed rows) {r : ForwardRow} (hr : r ∈ rows) : rowOf rows r.port = some r := by
  cases hfind : Web.rowOf rows r.port with
  | none => exact absurd (decide_eq_true rfl) (List.find?_eq_none.1 hfind r hr)
  | some r' =>
    obtain ⟨hr', hport⟩ := rowOf_some hfind
    rw [List.inj_on_of_nodup_map h.ports hr' hr hport]

theorem Indexed.row_of_slot (h : Indexed rows) {r r' : ForwardRow} (hr : r ∈ rows) (hr' : r' ∈ rows)
    (hs : r.slot = some slot) (hs' : r'.slot = some slot) : r = r' :=
  row_of_slot_of_nodup (of_decide_eq_true h.slots) hr hr' hs hs'

/-- Distinct ports hold distinct slots, so the index on the slot is kept. -/
theorem uniqueSlots_of_ports (hports : (rows.map ForwardRow.port).Nodup)
    (hslots : ∀ r ∈ rows, ∀ r' ∈ rows, ∀ slot, r.slot = some slot → r'.slot = some slot → r.port = r'.port) :
    uniqueSlots rows = true := by
  refine decide_eq_true ?_
  rw [List.Nodup, List.pairwise_filterMap]
  refine (List.pairwise_map.1 hports).imp_of_mem fun {r r'} hr hr' hne x hx y hy hxy => hne ?_
  exact hslots r hr r' hr' x hx (hxy ▸ hy)

theorem Indexed.filter (h : Indexed rows) (keep : ForwardRow → Bool) : Indexed (rows.filter keep) where
  ports := h.ports.sublist (List.filter_sublist.map _)
  slots := decide_eq_true ((of_decide_eq_true h.slots).sublist (List.filter_sublist.filterMap _))

theorem RowsOk.indexed (h : RowsOk rows) : Indexed rows := ⟨h.ports, decide_eq_true h.unique⟩

section
variable {row : ForwardRow} {set : ForwardRow → ForwardRow} (hset : ∀ r, r.port = row.port → (set r).port = row.port)
include hset

theorem rowOf_written (port : Int) : rowOf (written rows row set) port =
    if port = row.port then some ((rowOf rows port).elim row set) else rowOf rows port := by
  unfold written rowOf
  split
  case isTrue hany =>
    have hport : ∀ r : ForwardRow, (if r.port = row.port then set r else r).port = r.port := by
      intro r
      split
      · next hr => rw [hset r hr, hr]
      · rfl
    rw [List.find?_map]
    simp only [Function.comp_def, hport]
    split
    · next heq =>
      obtain ⟨r, hr, hrp⟩ := List.any_eq_true.1 hany
      cases hfind : rows.find? (·.port = port) with
      | none => exact absurd (by simpa [heq] using hrp) (List.find?_eq_none.1 hfind r hr)
      | some r' =>
        have hp : r'.port = port := by simpa using List.find?_some hfind
        simp [hp, heq]
    · next hne =>
      cases hfind : rows.find? (·.port = port) with
      | none => rfl
      | some r' =>
        have hp : r'.port = port := by simpa using List.find?_some hfind
        simp [hp, hne]
  case isFalse hany =>
    have hnone : rows.find? (·.port = row.port) = none :=
      List.find?_eq_none.2 fun r hr hp => hany (List.any_eq_true.2 ⟨r, hr, hp⟩)
    rw [List.find?_append]
    split
    · next heq => simp [heq, hnone]
    · next hne =>
      have hsingle : [row].find? (·.port = port) = none := by simp [Ne.symm hne]
      rw [hsingle, Option.or_none]

/-- Writing a slot that no other port holds. -/
theorem Indexed.written (h : Indexed rows) (hrow : row.slot = some slot)
    (hslot : ∀ r, r.port = row.port → (set r).slot = some slot)
    (hfree : ∀ r ∈ rows, r.slot = some slot → r.port = row.port) : Indexed (written rows row set) := by
  have hports := nodup_ports_written h.ports hset
  refine ⟨hports, uniqueSlots_of_ports hports fun r hr r' hr' s hs hs' => ?_⟩
  -- a row that is not the written port's is a row of before
  have hold : ∀ r ∈ Web.written rows row set, r.port = row.port ∧ r.slot = some slot ∨ r ∈ rows := by
    intro r hr
    rcases mem_written hr with hr | rfl | ⟨r₀, -, hp, rfl⟩
    · exact .inr hr
    · exact .inl ⟨rfl, hrow⟩
    · exact .inl ⟨hset r₀ hp, hslot r₀ hp⟩
  rcases hold r hr with ⟨hp, hself⟩ | hmem <;> rcases hold r' hr' with ⟨hp', hself'⟩ | hmem'
  · rw [hp, hp']
  · rw [hp, hfree r' hmem' (hs'.trans (hs.symm.trans hself))]
  · rw [hp', hfree r hmem (hs.trans (hs'.symm.trans hself'))]
  · rw [h.row_of_slot hmem hmem' hs hs']

end

/-! ## One port -/

/-- A port the pass does not touch: muted, or forwarded privately. -/
def skips (kept : List ForwardRow) (still : List Int) (port : Int) : Bool :=
  port ∈ still || (rowOf kept port).any (·.visibility = .priv)

/-- A port the pass takes a free slot for. -/
def needsSlot (kept : List ForwardRow) (still : List Int) (port : Int) : Bool :=
  !skips kept still port && ((rowOf kept port).bind ForwardRow.slot).isNone

/-- The row of a port that is to have the slot. -/
def rowAfter (e : Env) (ws : ForwardWorkspace) (port : Int) (existing : Option ForwardRow) (slot : Option Slot) :
    Option ForwardRow :=
  match slot.bind fun slot => (publicSlotUrl e ws slot).map fun url => (slot, url) with
  | none => existing
  | some (slot, url) => some (existing.elim ⟨port, .pub, none, some url, some slot⟩
      fun row => { row with slot := some slot, url := some url })

/-- The free slots behind the port. -/
def slotsBehind (kept : List ForwardRow) (still : List Int) (port : Int) (available : List Slot) : List Slot :=
  if needsSlot kept still port then available.tail else available

theorem slotsBehind_of_needs {available : List Slot} (h : needsSlot kept still port = true) :
    slotsBehind kept still port available = available.tail := if_pos h

theorem slotsBehind_of_not {available : List Slot} (h : ¬ needsSlot kept still port = true) :
    slotsBehind kept still port available = available := if_neg h

theorem nextSlot_snd (existing : Option ForwardRow) (available : List Slot) :
    (nextSlot existing available).2 = if (existing.bind ForwardRow.slot).isNone then available.tail else available := by
  unfold nextSlot
  split
  · next h => simp [h]
  · next h => simp [h]

theorem nextSlot_fst (existing : Option ForwardRow) (available : List Slot) :
    (nextSlot existing available).1 = (existing.bind ForwardRow.slot).or available.head? := by
  unfold nextSlot
  split
  · next h => simp [h]
  · next h => simp [h]

/-- The row stays, when the slot has no host; or it has the slot and its link. -/
theorem rowAfter_cases (e : Env) (ws : ForwardWorkspace) (port : Int) (existing : Option ForwardRow) (next : Option Slot) :
    (rowAfter e ws port existing next = existing ∧ ∀ slot, next = some slot → publicSlotUrl e ws slot = none) ∨
      ∃ slot url r, next = some slot ∧ publicSlotUrl e ws slot = some url ∧
        rowAfter e ws port existing next = some r ∧ r.slot = some slot ∧ r.url = some url ∧
          r.visibility = existing.elim .pub ForwardRow.visibility := by
  cases next with
  | none => exact .inl ⟨rfl, by rintro _ ⟨⟩⟩
  | some slot =>
    cases hurl : publicSlotUrl e ws slot with
    | none => exact .inl ⟨by rw [rowAfter, Option.bind_some, hurl]; rfl, by rintro _ ⟨⟩; exact hurl⟩
    | some url =>
      refine .inr ⟨slot, url, _, rfl, hurl, by rw [rowAfter, Option.bind_some, hurl]; rfl, ?_⟩
      cases existing with
      | none => exact ⟨rfl, rfl, rfl⟩
      | some row => exact ⟨rfl, rfl, rfl⟩

/-- What one port does to the rows: its own row becomes what it is to be, the others stay. -/
theorem syncPort_spec (e : Env) (ws : ForwardWorkspace) (still : List Int) (h : Indexed rows)
    (hrow : rowOf rows port = rowOf kept port) {available : List Slot}
    (hfree : ∀ slot ∈ available, ∀ r ∈ rows, r.slot ≠ some slot) :
    ∃ rows', syncPort e ws still kept (rows, available) port = .ok (rows', slotsBehind kept still port available) ∧
      Indexed rows' ∧ (∀ q, q ≠ port → rowOf rows' q = rowOf rows q) ∧
      rowOf rows' port = if skips kept still port then rowOf kept port
        else rowAfter e ws port (rowOf kept port) (nextSlot (rowOf kept port) available).1 := by
  unfold syncPort
  rw [show kept.find? (·.port = port) = rowOf kept port from rfl]
  dsimp only
  by_cases hskip : skips kept still port = true
  · have hbehind : slotsBehind kept still port available = available :=
      slotsBehind_of_not (by simp [needsSlot, hskip])
    refine ⟨rows, ?_, h, fun _ _ => rfl, by rw [if_pos hskip, hrow]⟩
    rw [hbehind]
    split
    · rfl
    · next hstill => rw [if_pos (by simpa [skips, hstill] using hskip)]
  · have hbehind : slotsBehind kept still port available = (nextSlot (rowOf kept port) available).2 := by
      rw [nextSlot_snd, slotsBehind, needsSlot, eq_false_of_ne_true hskip]
      rfl
    have hstill : port ∉ still := fun hmem => hskip (by simp [skips, hmem])
    have hpriv : ¬ (rowOf kept port).any (·.visibility = .priv) = true := fun hany => hskip (by simp [skips, hany])
    rw [if_neg hstill, if_neg hpriv, if_neg hskip, hbehind]
    cases hnext : (nextSlot (rowOf kept port) available).1 with
    | none => exact ⟨rows, rfl, h, fun _ _ => rfl, hrow⟩
    | some slot =>
      dsimp only
      cases hurl : publicSlotUrl e ws slot with
      | none => exact ⟨rows, rfl, h, fun _ _ => rfl, by rw [hrow, rowAfter, Option.bind_some, hurl]; rfl⟩
      | some url =>
        dsimp only
        have hafter : rowAfter e ws port (rowOf kept port) (some slot) =
            some ((rowOf kept port).elim ⟨port, .pub, none, some url, some slot⟩
              fun row => { row with slot := some slot, url := some url }) := by
          rw [rowAfter, Option.bind_some, hurl]
          rfl
        rw [hafter]
        split
        · -- the row is up to date
          next hsame =>
          obtain ⟨row, hexisting, hsame⟩ := (Option.any_eq_true _ _).1 hsame
          simp only [Bool.and_eq_true, decide_eq_true_eq] at hsame
          refine ⟨rows, rfl, h, fun _ _ => rfl, ?_⟩
          obtain ⟨port', visibility, label, url', slot'⟩ := row
          obtain ⟨rfl, rfl⟩ := hsame
          rw [hrow, hexisting]
          rfl
        · -- a slot that is in the rows is the port's own
          have hown : ∀ r ∈ rows, r.slot = some slot → r.port = port := by
            intro r hr hs
            rw [nextSlot_fst] at hnext
            cases hheld : (rowOf kept port).bind ForwardRow.slot with
            | none =>
              rw [hheld, Option.none_or] at hnext
              exact absurd hs (hfree slot (List.mem_of_head? hnext) r hr)
            | some held =>
              rw [hheld, Option.some_or] at hnext
              obtain ⟨row, hexisting, hslot⟩ := Option.bind_eq_some_iff.1 hheld
              obtain ⟨hmem, hport⟩ := rowOf_some (hrow.trans hexisting)
              rw [h.row_of_slot hr hmem hs (hslot.trans hnext), hport]
          have hset : ∀ r : ForwardRow, r.port = port →
              ({ r with slot := some slot, url := some url } : ForwardRow).port = port := fun r hp => hp
          have hindexed : Indexed (written rows ⟨port, .pub, none, some url, some slot⟩
              fun row => { row with slot := some slot, url := some url }) :=
            Indexed.written hset h rfl (fun _ _ => rfl) hown
          refine ⟨_, by rw [upsert, if_pos hindexed.slots]; rfl, hindexed, fun q hq => ?_, ?_⟩
          · rw [rowOf_written hset]
            exact if_neg hq
          · rw [rowOf_written hset, if_pos rfl, hrow]

/-- The slots that stay available are in no row. -/
theorem free_behind (h' : Indexed rows') {available : List Slot} (havail : available.Nodup)
    (hfree : ∀ slot ∈ available, ∀ r ∈ rows, r.slot ≠ some slot) (hrow : rowOf rows port = rowOf kept port)
    (hothers : ∀ q, q ≠ port → rowOf rows' q = rowOf rows q)
    (hself : rowOf rows' port = if skips kept still port then rowOf kept port
      else rowAfter e ws port (rowOf kept port) (nextSlot (rowOf kept port) available).1) :
    ∀ slot ∈ slotsBehind kept still port available, ∀ r ∈ rows', r.slot ≠ some slot := by
  intro slot hslot r hr hs
  have hmem : slot ∈ available := by
    by_cases hneeds : needsSlot kept still port = true
    · rw [slotsBehind_of_needs hneeds] at hslot
      exact List.mem_of_mem_tail hslot
    · rwa [slotsBehind_of_not hneeds] at hslot
  have hold : ∀ q, rowOf rows q ≠ some r := fun q hq => hfree slot hmem r (rowOf_some hq).1 hs
  have hfind := h'.rowOf hr
  by_cases hport : r.port = port
  · rw [hport, hself] at hfind
    split at hfind
    · exact hold port (hrow.trans hfind)
    · next hskip =>
      rcases rowAfter_cases e ws port (rowOf kept port) (nextSlot (rowOf kept port) available).1 with
        ⟨hstay, -⟩ | ⟨slot', url, r', hnext, -, hafter, hs', -, -⟩
      · exact hold port (hrow.trans (hstay.symm.trans hfind))
      · cases hafter.symm.trans hfind
        cases hs.symm.trans hs'
        rw [nextSlot_fst] at hnext
        cases hheld : (rowOf kept port).bind ForwardRow.slot with
        | some held =>
          obtain ⟨row, hexisting, hrowslot⟩ := Option.bind_eq_some_iff.1 hheld
          rw [hheld, Option.some_or] at hnext
          exact hfree slot hmem row (rowOf_some (hrow.trans hexisting)).1 (hrowslot.trans hnext)
        | none =>
          rw [hheld, Option.none_or] at hnext
          have hneeds : needsSlot kept still port = true := by simp [needsSlot, hskip, hheld]
          rw [slotsBehind_of_needs hneeds] at hslot
          obtain ⟨rest, rfl⟩ := List.head?_eq_some_iff.1 hnext
          exact (List.nodup_cons.1 havail).1 hslot
  · exact hold r.port ((hothers r.port hport).symm.trans hfind)

/-! ## All ports -/

/-- The slot a port of the pass is to have. -/
def slotFor (kept : List ForwardRow) (still : List Int) : List Int → List Slot → Int → Option Slot
  | [], _, _ => none
  | port :: ports, available, q =>
    if q = port then (nextSlot (rowOf kept port) available).1
    else slotFor kept still ports (slotsBehind kept still port available) q

theorem slotFor_cons (port : Int) (ports : List Int) (available : List Slot) (q : Int) :
    slotFor kept still (port :: ports) available q =
      if q = port then (nextSlot (rowOf kept port) available).1
      else slotFor kept still ports (slotsBehind kept still port available) q := rfl

/-- What the pass leaves, port by port. -/
structure Handed (e : Env) (ws : ForwardWorkspace) (kept : List ForwardRow) (still ports : List Int)
    (available : List Slot) (rows rows' : List ForwardRow) : Prop where
  indexed : Indexed rows'
  others : ∀ q, q ∉ ports → rowOf rows' q = rowOf rows q
  self : ∀ port ∈ ports, rowOf rows' port = if skips kept still port then rowOf kept port
    else rowAfter e ws port (rowOf kept port) (slotFor kept still ports available port)

theorem syncPorts_spec (e : Env) (ws : ForwardWorkspace) (still : List Int) (hports : ports.Nodup) (h : Indexed rows)
    (hrows : ∀ port ∈ ports, rowOf rows port = rowOf kept port) {available : List Slot} (havail : available.Nodup)
    (hfree : ∀ slot ∈ available, ∀ r ∈ rows, r.slot ≠ some slot) :
    ∃ rows' left, ports.foldlM (syncPort e ws still kept) (rows, available) = .ok (rows', left) ∧
      Handed e ws kept still ports available rows rows' := by
  induction ports generalizing rows available with
  | nil => exact ⟨rows, available, rfl, ⟨h, fun _ _ => rfl, by rintro _ ⟨⟩⟩⟩
  | cons port ports ih =>
    obtain ⟨hport, hports⟩ := List.nodup_cons.1 hports
    have hrow := hrows port (List.mem_cons_self ..)
    obtain ⟨rows₁, hstep, h₁, hothers₁, hself₁⟩ := syncPort_spec e ws still h hrow hfree
    have hne : ∀ q ∈ ports, q ≠ port := fun q hq heq => hport (heq ▸ hq)
    have hrows₁ : ∀ q ∈ ports, rowOf rows₁ q = rowOf kept q := fun q hq =>
      (hothers₁ q (hne q hq)).trans (hrows q (List.mem_cons_of_mem _ hq))
    have havail₁ : (slotsBehind kept still port available).Nodup := by
      by_cases hneeds : needsSlot kept still port = true
      · rw [slotsBehind_of_needs hneeds]
        exact havail.sublist (List.tail_sublist _)
      · rwa [slotsBehind_of_not hneeds]
    obtain ⟨rows', left, hrest, hrest'⟩ := ih hports h₁ hrows₁ havail₁
      (free_behind h₁ havail hfree hrow hothers₁ hself₁)
    refine ⟨rows', left, ?_, ⟨hrest'.indexed, fun q hq => ?_, fun q hq => ?_⟩⟩
    · rw [List.foldlM_cons, hstep]
      exact hrest
    · rw [List.mem_cons, not_or] at hq
      rw [hrest'.others q hq.2, hothers₁ q hq.1]
    · rcases List.mem_cons.1 hq with rfl | hq
      · rw [hrest'.others q hport, hself₁, slotFor_cons, if_pos rfl]
      · rw [hrest'.self q hq, slotFor_cons, if_neg (hne q hq)]

/-! ## Which slots are handed out -/

section
variable {q : Int} {available : List Slot}

theorem slotFor_held (hq : q ∈ ports) (hs : (rowOf kept q).bind ForwardRow.slot = some slot) :
    slotFor kept still ports available q = some slot := by
  induction ports generalizing available with
  | nil => cases hq
  | cons port ports ih =>
    rw [slotFor_cons]
    split
    · next heq => rw [nextSlot_fst, ← heq, hs, Option.some_or]
    · next hne => exact ih ((List.mem_cons.1 hq).resolve_left hne)

/-- The pass takes a slot for the port: it is one of the first free ones, as many as there are such ports. -/
theorem slotFor_needs (hq : q ∈ ports) (hneeds : needsSlot kept still q = true)
    (hs : slotFor kept still ports available q = some slot) :
    slot ∈ available.take (ports.countP (needsSlot kept still)) := by
  induction ports generalizing available with
  | nil => cases hq
  | cons port ports ih =>
    rw [slotFor_cons] at hs
    split at hs
    · next heq =>
      rw [heq] at hneeds
      have hheld : (rowOf kept port).bind ForwardRow.slot = none := by
        simpa using (Bool.and_eq_true_iff.1 hneeds).2
      rw [nextSlot_fst, hheld, Option.none_or] at hs
      obtain ⟨rest, rfl⟩ := List.head?_eq_some_iff.1 hs
      simp [hneeds]
    · next hne =>
      have hmem := ih ((List.mem_cons.1 hq).resolve_left hne) hs
      rw [List.countP_cons]
      by_cases h : needsSlot kept still port = true
      · rw [slotsBehind_of_needs h] at hmem
        rw [if_pos h]
        cases available with
        | nil => simp at hmem
        | cons first rest => simpa using .inr hmem
      · rw [slotsBehind_of_not h] at hmem
        rw [if_neg h]
        exact hmem

/-- A port goes without a slot when there are not enough. -/
theorem slotFor_none (hq : q ∈ ports) (hs : slotFor kept still ports available q = none) :
    available.drop (ports.countP (needsSlot kept still)) = [] := by
  induction ports generalizing available with
  | nil => cases hq
  | cons port ports ih =>
    rw [slotFor_cons] at hs
    split at hs
    · rw [nextSlot_fst, Option.or_eq_none_iff, List.head?_eq_none_iff] at hs
      rw [hs.2, List.drop_nil]
    · next hne =>
      have hnil := ih ((List.mem_cons.1 hq).resolve_left hne) hs
      rw [List.countP_cons]
      by_cases h : needsSlot kept still port = true
      · rw [slotsBehind_of_needs h] at hnil
        rw [if_pos h, ← hnil, List.drop_tail]
      · rw [slotsBehind_of_not h] at hnil
        rw [if_neg h]
        exact hnil

/-- Each of these slots goes to a port. -/
theorem exists_slotFor (hports : ports.Nodup) (hs : slot ∈ available.take (ports.countP (needsSlot kept still))) :
    ∃ port ∈ ports, needsSlot kept still port = true ∧ slotFor kept still ports available port = some slot := by
  induction ports generalizing available with
  | nil => simp at hs
  | cons port ports ih =>
    obtain ⟨hport, hports⟩ := List.nodup_cons.1 hports
    have hlater : slot ∈ (slotsBehind kept still port available).take (ports.countP (needsSlot kept still)) →
        ∃ q ∈ port :: ports, needsSlot kept still q = true ∧
          slotFor kept still (port :: ports) available q = some slot := by
      intro hmem
      obtain ⟨q, hq, hneeds, hslot⟩ := ih hports hmem
      refine ⟨q, List.mem_cons_of_mem _ hq, hneeds, ?_⟩
      rw [slotFor_cons, if_neg fun heq : q = port => hport (heq ▸ hq)]
      exact hslot
    rw [List.countP_cons] at hs
    by_cases hneeds : needsSlot kept still port = true
    · rw [if_pos hneeds] at hs
      rw [slotsBehind_of_needs hneeds] at hlater
      cases available with
      | nil => simp at hs
      | cons first rest =>
        rw [List.take_succ_cons] at hs
        rcases List.mem_cons.1 hs with rfl | hmem
        · have hheld : (rowOf kept port).bind ForwardRow.slot = none := by
            simpa using (Bool.and_eq_true_iff.1 hneeds).2
          refine ⟨port, List.mem_cons_self .., hneeds, ?_⟩
          rw [slotFor_cons, if_pos rfl, nextSlot_fst, hheld]
          rfl
        · exact hlater hmem
    · rw [if_neg hneeds] at hs
      rw [slotsBehind_of_not hneeds] at hlater
      exact hlater hs

end

/-! ## What the pass leaves -/

/-- A row holds the slot. -/
def Taken (rows : List ForwardRow) (slot : Slot) : Prop := ∃ r ∈ rows, r.slot = some slot

/-- The port is forwarded: its row has a slot. -/
def HasForward (rows : List ForwardRow) (port : Int) : Prop := ∃ r ∈ rows, r.port = port ∧ r.slot.isSome

def freeSlots (rows : List ForwardRow) : List Slot :=
  proxySlots.filter fun slot => rows.all fun row => row.slot ≠ some slot

theorem mem_freeSlots : slot ∈ freeSlots rows ↔ slot ∈ proxySlots ∧ ¬ Taken rows slot := by
  simp [freeSlots, Taken]

theorem freeSlots_nodup (rows : List ForwardRow) : (freeSlots rows).Nodup :=
  List.Nodup.filter _ (by decide)

section
variable (handed : Handed e ws kept still ports (freeSlots kept) kept rows)
include handed

/-- The slot of a port that the pass keeps a row of, or takes a slot for. -/
theorem Handed.taken_cases (hs : Taken rows slot) : Taken kept slot ∨
    slot ∈ (freeSlots kept).take (ports.countP (needsSlot kept still)) ∧ (publicSlotUrl e ws slot).isSome := by
  obtain ⟨r, hr, hs⟩ := hs
  have hfind := handed.indexed.rowOf hr
  have hold : ∀ q, rowOf kept q = some r → Taken kept slot := fun q hq => ⟨r, (rowOf_some hq).1, hs⟩
  by_cases hmem : r.port ∈ ports
  · rw [handed.self _ hmem] at hfind
    split at hfind
    · exact .inl (hold _ hfind)
    · next hskip =>
      rcases rowAfter_cases e ws r.port (rowOf kept r.port) (slotFor kept still ports (freeSlots kept) r.port) with
        ⟨hstay, -⟩ | ⟨slot', url, r', hnext, hurl, hafter, hs', -, -⟩
      · exact .inl (hold _ (hstay.symm.trans hfind))
      · cases hafter.symm.trans hfind
        cases hs.symm.trans hs'
        cases hheld : (rowOf kept r.port).bind ForwardRow.slot with
        | some held =>
          obtain ⟨row, hexisting, hrowslot⟩ := Option.bind_eq_some_iff.1 hheld
          rw [slotFor_held hmem hheld] at hnext
          exact .inl ⟨row, (rowOf_some hexisting).1, hrowslot.trans hnext⟩
        | none =>
          have hneeds : needsSlot kept still r.port = true := by simp [needsSlot, hskip, hheld]
          exact .inr ⟨slotFor_needs hmem hneeds hnext, by rw [hurl]; rfl⟩
  · exact .inl (hold _ ((handed.others _ hmem).symm.trans hfind))

theorem Handed.taken_of_kept (h : Indexed kept) (hs : Taken kept slot) : Taken rows slot := by
  obtain ⟨r, hr, hs⟩ := hs
  have hfind := h.rowOf hr
  by_cases hmem : r.port ∈ ports
  · have hself := handed.self _ hmem
    split at hself
    · exact ⟨r, (rowOf_some (hself.trans hfind)).1, hs⟩
    · rcases rowAfter_cases e ws r.port (rowOf kept r.port) (slotFor kept still ports (freeSlots kept) r.port) with
        ⟨hstay, -⟩ | ⟨slot', url, r', hnext, -, hafter, hs', -, -⟩
      · exact ⟨r, (rowOf_some (hself.trans (hstay.trans hfind))).1, hs⟩
      · have hheld : (rowOf kept r.port).bind ForwardRow.slot = some slot := by rw [hfind]; exact hs
        rw [slotFor_held hmem hheld] at hnext
        exact ⟨r', (rowOf_some (hself.trans hafter)).1, hs'.trans hnext.symm⟩
  · exact ⟨r, (rowOf_some ((handed.others _ hmem).trans hfind)).1, hs⟩

/-- A port that takes a slot is forwarded if that slot has a host. -/
theorem Handed.hasForward_iff (hmem : port ∈ ports) (hneeds : needsSlot kept still port = true) :
    HasForward rows port ↔
      ∃ slot, slotFor kept still ports (freeSlots kept) port = some slot ∧ (publicSlotUrl e ws slot).isSome := by
  obtain ⟨hskip, hheld⟩ := Bool.and_eq_true_iff.1 hneeds
  have hself := handed.self port hmem
  rw [if_neg (by simpa using hskip)] at hself
  rcases rowAfter_cases e ws port (rowOf kept port) (slotFor kept still ports (freeSlots kept) port) with
    ⟨hstay, hnone⟩ | ⟨slot, url, r, hnext, hurl, hafter, hs, -, -⟩
  · constructor
    · rintro ⟨r, hr, rfl, hs⟩
      have hfind := (handed.indexed.rowOf hr).symm.trans (hself.trans hstay)
      rw [← hfind, Option.bind_some, Option.isNone_iff_eq_none] at hheld
      rw [hheld] at hs
      cases hs
    · rintro ⟨slot, hnext, hurl⟩
      rw [hnone slot hnext] at hurl
      cases hurl
  · constructor
    · exact fun _ => ⟨slot, hnext, by rw [hurl]; rfl⟩
    · intro _
      obtain ⟨hr, hport⟩ := rowOf_some (hself.trans hafter)
      exact ⟨r, hr, hport, by rw [hs]; rfl⟩

/-- Any other port that is not skipped keeps its slot. -/
theorem Handed.hasForward (hmem : port ∈ ports) (hskip : skips kept still port = false)
    (hneeds : needsSlot kept still port = false) : HasForward rows port := by
  obtain ⟨held, hheld⟩ : ∃ held, (rowOf kept port).bind ForwardRow.slot = some held := by
    simpa [needsSlot, hskip, Option.isSome_iff_exists] using hneeds
  have hself := handed.self port hmem
  rw [if_neg (by simp [hskip])] at hself
  rcases rowAfter_cases e ws port (rowOf kept port) (slotFor kept still ports (freeSlots kept) port) with
    ⟨hstay, -⟩ | ⟨slot, url, r, -, -, hafter, hs, -, -⟩
  · obtain ⟨row, hexisting, hslot⟩ := Option.bind_eq_some_iff.1 hheld
    obtain ⟨hr, hport⟩ := rowOf_some (hself.trans (hstay.trans hexisting))
    exact ⟨row, hr, hport, by rw [hslot]; rfl⟩
  · obtain ⟨hr, hport⟩ := rowOf_some (hself.trans hafter)
    exact ⟨r, hr, hport, by rw [hs]; rfl⟩

theorem Handed.taken_iff (h : Indexed kept) (hports : ports.Nodup) : Taken rows slot ↔ Taken kept slot ∨
    slot ∈ (freeSlots kept).take (ports.countP (needsSlot kept still)) ∧ (publicSlotUrl e ws slot).isSome := by
  refine ⟨handed.taken_cases, ?_⟩
  rintro (hs | ⟨hs, hlive⟩)
  · exact handed.taken_of_kept h hs
  · obtain ⟨port, hmem, hneeds, hnext⟩ := exists_slotFor hports hs
    obtain ⟨hskip, -⟩ := Bool.and_eq_true_iff.1 hneeds
    have hself := handed.self port hmem
    rw [if_neg (by simpa using hskip), hnext] at hself
    rcases rowAfter_cases e ws port (rowOf kept port) (some slot) with
      ⟨-, hnone⟩ | ⟨slot', url, r, hnext', -, hafter, hs', -, -⟩
    · rw [hnone slot rfl] at hlive
      cases hlive
    · exact ⟨r, (rowOf_some (hself.trans hafter)).1, hs'.trans hnext'.symm⟩

/-- The free slots after the pass: those it took for nothing, and those it did not take. -/
theorem Handed.freeSlots_eq (h : Indexed kept) (hports : ports.Nodup) : freeSlots rows =
    ((freeSlots kept).take (ports.countP (needsSlot kept still))).filter
        (fun slot => (publicSlotUrl e ws slot).isNone) ++
      (freeSlots kept).drop (ports.countP (needsSlot kept still)) := by
  have hfree : freeSlots rows = (freeSlots kept).filter fun slot => rows.all fun row => row.slot ≠ some slot := by
    unfold freeSlots
    rw [List.filter_filter]
    refine List.filter_congr fun slot _ => ?_
    rw [Bool.eq_iff_iff, Bool.and_eq_true_iff]
    refine ⟨fun hrows => ⟨hrows, ?_⟩, And.left⟩
    have hnot : ¬ Taken kept slot := fun htaken => by
      obtain ⟨r, hr, hs⟩ := handed.taken_of_kept h htaken
      simpa [hs] using List.all_eq_true.1 hrows r hr
    simpa [Taken] using hnot
  have htaken : ∀ slot ∈ freeSlots kept, (rows.all fun row => row.slot ≠ some slot) = true ↔
      ¬ (slot ∈ (freeSlots kept).take (ports.countP (needsSlot kept still)) ∧ (publicSlotUrl e ws slot).isSome) := by
    intro slot hslot
    have hall : (rows.all fun row => row.slot ≠ some slot) = true ↔ ¬ Taken rows slot := by simp [Taken]
    rw [hall, handed.taken_iff h hports, not_or]
    exact and_iff_right (mem_freeSlots.1 hslot).2
  have hnodup := freeSlots_nodup kept
  rw [hfree]
  generalize freeSlots kept = available at htaken hnodup ⊢
  generalize ports.countP (needsSlot kept still) = n at htaken ⊢
  conv_lhs => rw [← List.take_append_drop n available]
  rw [List.filter_append]
  congr 1
  · refine List.filter_congr fun slot hslot => ?_
    rw [Bool.eq_iff_iff, htaken slot (List.mem_of_mem_take hslot)]
    simp [hslot]
  · refine List.filter_eq_self.2 fun slot hslot => ?_
    rw [htaken slot (List.mem_of_mem_drop hslot)]
    exact fun ⟨htake, _⟩ => (List.disjoint_take_drop hnodup (Nat.le_refl n)) htake hslot

end

/-! ## The same pass once more -/

/-- The slots the second pass goes through. -/
def leftSlots (e : Env) (ws : ForwardWorkspace) (available : List Slot) (n : Nat) : List Slot :=
  (available.take n).filter (fun slot => (publicSlotUrl e ws slot).isNone) ++ available.drop n

theorem leftSlots_nil (e : Env) (ws : ForwardWorkspace) (n : Nat) : leftSlots e ws [] n = [] := by simp [leftSlots]

theorem leftSlots_cons (e : Env) (ws : ForwardWorkspace) (slot : Slot) (available : List Slot) (n : Nat) :
    leftSlots e ws (slot :: available) (n + 1) =
      if (publicSlotUrl e ws slot).isNone then slot :: leftSlots e ws available n else leftSlots e ws available n := by
  unfold leftSlots
  rw [List.take_succ_cons, List.drop_succ_cons, List.filter_cons]
  split <;> rfl

/-- A port that is up to date, or has no slot with a host to take: its second turn takes the slot it took before. -/
theorem syncPort_again {available : List Slot} (n : Nat) (hrow : rowOf rows port = if skips kept still port then
      rowOf kept port else rowAfter e ws port (rowOf kept port) (nextSlot (rowOf kept port) available).1) :
    syncPort e ws still rows
        (rows, leftSlots e ws available (n + if needsSlot kept still port then 1 else 0)) port =
      .ok (rows, leftSlots e ws (slotsBehind kept still port available) n) := by
  unfold syncPort
  rw [show rows.find? (·.port = port) = rowOf rows port from rfl]
  dsimp only
  by_cases hskip : skips kept still port = true
  · have hneeds : needsSlot kept still port = false := by simp [needsSlot, hskip]
    rw [if_pos hskip] at hrow
    rw [slotsBehind, hneeds, hrow]
    split
    · rfl
    · next hstill => rw [if_pos (by simpa [skips, hstill] using hskip)]; rfl
  · rw [if_neg hskip] at hrow
    have hstill : port ∉ still := fun hmem => hskip (by simp [skips, hmem])
    have hpriv : ¬ (rowOf kept port).any (·.visibility = .priv) = true := fun hany => hskip (by simp [skips, hany])
    have hneeds : needsSlot kept still port = ((rowOf kept port).bind ForwardRow.slot).isNone := by
      simp [needsSlot, hskip]
    rw [if_neg hstill, slotsBehind, hneeds]
    rcases rowAfter_cases e ws port (rowOf kept port) (nextSlot (rowOf kept port) available).1 with
      ⟨hstay, hnone⟩ | ⟨slot, url, r, hnext, hurl, hafter, hs, hu, hvis⟩
    · -- the slot it took has no host, or there was none
      rw [hrow, hstay, if_neg hpriv]
      rw [nextSlot_fst] at hnone
      cases hheld : (rowOf kept port).bind ForwardRow.slot with
      | some held =>
        have hdead := hnone held (by rw [hheld]; rfl)
        simp [nextSlot, hheld, hdead]
      | none =>
        cases available with
        | nil => simp [nextSlot, hheld, leftSlots_nil]
        | cons first rest =>
          have hdead := hnone first (by rw [hheld]; rfl)
          simp [nextSlot, hheld, leftSlots_cons, hdead]
    · -- its row has the slot and the link already
      have hpub : ¬ (some r).any (·.visibility = .priv) = true := by
        intro hany
        refine hpriv ?_
        cases hexisting : rowOf kept port with
        | none =>
          rw [hexisting] at hvis
          simp [hvis] at hany
        | some row =>
          rw [hexisting] at hvis
          simpa [hvis] using hany
      rw [hrow, hafter, if_neg hpub]
      rw [nextSlot_fst] at hnext
      cases hheld : (rowOf kept port).bind ForwardRow.slot with
      | some held => simp [nextSlot, hs, hu, hurl]
      | none =>
        rw [hheld, Option.none_or] at hnext
        obtain ⟨rest, rfl⟩ := List.head?_eq_some_iff.1 hnext
        simp [nextSlot, hs, hu, hurl, leftSlots_cons]

theorem syncPorts_again {available : List Slot} (h : ports.Nodup) (hself : ∀ port ∈ ports, rowOf rows port =
      if skips kept still port then rowOf kept port
      else rowAfter e ws port (rowOf kept port) (slotFor kept still ports available port)) :
    ∃ left, ports.foldlM (syncPort e ws still rows)
      (rows, leftSlots e ws available (ports.countP (needsSlot kept still))) = .ok (rows, left) := by
  induction ports generalizing available with
  | nil => exact ⟨_, rfl⟩
  | cons port ports ih =>
    obtain ⟨hport, hports⟩ := List.nodup_cons.1 h
    have hrow := hself port (List.mem_cons_self ..)
    rw [slotFor_cons, if_pos rfl] at hrow
    have htail : ∀ q ∈ ports, rowOf rows q = if skips kept still q then rowOf kept q else
        rowAfter e ws q (rowOf kept q) (slotFor kept still ports (slotsBehind kept still port available) q) := by
      intro q hq
      have hq' := hself q (List.mem_cons_of_mem _ hq)
      rwa [slotFor_cons, if_neg fun heq : q = port => hport (heq ▸ hq)] at hq'
    obtain ⟨left, hleft⟩ := ih hports htail
    refine ⟨left, ?_⟩
    rw [List.foldlM_cons, List.countP_cons, syncPort_again _ hrow]
    exact hleft

/-! ## The report -/

def listedPorts (e : Env) (listing : List Int) : List Int := (listing.filter fun port => !isInfraPort e port).dedup

/-- The rows a report keeps. -/
def keptRows (rows : List ForwardRow) (ports : List Int) : List ForwardRow :=
  rows.filter fun row => !(row.visibility = .pub && row.port ∉ ports)

/-- The mutes that last. -/
def stillMuted (db : ForwardsDb) (ports : List Int) (now : Int) : List Int :=
  (db.mutedPorts now).filter (· ∈ ports)

def savedMutes (db : ForwardsDb) (ports : List Int) (now : Int) : ForwardsDb :=
  if (db.mutedPorts now).length ≠ (stillMuted db ports now).length then db.saveMutedPorts (stillMuted db ports now) now
  else db

variable {db : ForwardsDb} {listing : List Int} {now : Int}

theorem sync_eq (hrun : ws.state = .running) (hbackend : e.backend ≠ .local) {left : List Slot}
    (h : ((listedPorts e listing).insertionSort (· ≤ ·)).foldlM
      (syncPort e ws (stillMuted db (listedPorts e listing) now) (keptRows db.rows (listedPorts e listing)))
      (keptRows db.rows (listedPorts e listing), freeSlots (keptRows db.rows (listedPorts e listing))) =
        .ok (rows, left)) :
    syncListeningForwards e ws (some listing) now db =
      .ok { savedMutes db (listedPorts e listing) now with rows := rows } := by
  have hrows : ∀ (c : Prop) [Decidable c] (ports : List Int), (if c then db.saveMutedPorts ports now else db).rows =
      db.rows := fun c _ ports => by split <;> rfl
  simp only [syncListeningForwards]
  rw [if_neg (by simp [hrun, hbackend]), hrows]
  unfold keptRows listedPorts freeSlots stillMuted at h
  rw [h]
  rfl

/-- The saved mutes are those that last. -/
theorem mutedPorts_savedMutes (ports : List Int) :
    (savedMutes db ports now).mutedPorts now = stillMuted db ports now := by
  unfold savedMutes
  split
  · generalize stillMuted db ports now = still
    simp only [ForwardsDb.saveMutedPorts, ForwardsDb.mutedPorts]
    by_cases hnil : still = []
    · simp [hnil]
    · simp [hnil]
  · next hlen =>
    have hall := List.length_filter_eq_length_iff.1 (not_not.1 hlen).symm
    exact (List.filter_eq_self.2 hall).symm

/-- Kept rows are kept again. -/
theorem Handed.keptRows_eq {still ports' : List Int} (handed : Handed e ws (keptRows db.rows ports) still ports'
      (freeSlots (keptRows db.rows ports)) (keptRows db.rows ports) rows) (hmem : ∀ port, port ∈ ports' ↔ port ∈ ports) :
    keptRows rows ports = rows := by
  refine List.filter_eq_self.2 fun r hr => ?_
  by_cases hport : r.port ∈ ports
  · simp [hport]
  · have hfind := handed.others r.port fun h => hport ((hmem _).1 h)
    rw [handed.indexed.rowOf hr] at hfind
    exact (List.mem_filter.1 (rowOf_some hfind.symm).1).2

/-! ### What the report asks for -/

/-- The slot has a live host. -/
def HasHost (ws : ForwardWorkspace) (slot : Slot) : Prop := ∃ host, slotHost ws slot = some host ∧ host ≠ ""

theorem publicSlotUrl_isSome : (publicSlotUrl e ws slot).isSome ↔ HasHost ws slot := by
  unfold publicSlotUrl HasHost
  cases slotHost ws slot with
  | none => simp
  | some host => simp [Option.filter_some, apply_ite]

/-- The ports a slot is taken for: listed, not muted, with neither a private row nor one that has a slot. -/
def asking (e : Env) (db : ForwardsDb) (listing : List Int) (now : Int) : List Int :=
  (listedPorts e listing).filter fun port => port ∉ db.mutedPorts now &&
    db.rows.all fun row => row.port ≠ port || (row.visibility ≠ .priv && row.slot.isNone)

/-- Every listed port that is neither muted, infra nor private has a forward, or all slots with a host are taken. -/
def WorkConserving (e : Env) (ws : ForwardWorkspace) (db : ForwardsDb) (listing : List Int) (now : Int)
    (rows : List ForwardRow) : Prop :=
  ∀ port ∈ listing, isInfraPort e port = false → port ∉ db.mutedPorts now →
    (∀ r ∈ db.rows, r.port = port → r.visibility ≠ .priv) →
      HasForward rows port ∨ ∀ slot ∈ proxySlots, HasHost ws slot → Taken rows slot

/-- The free slots that are handed out all have a host, or none of those left over has one. -/
def NoSlotLost (e : Env) (ws : ForwardWorkspace) (db : ForwardsDb) (listing : List Int) (now : Int) : Prop :=
  let free := freeSlots (keptRows db.rows (listedPorts e listing))
  let n := (asking e db listing now).length
  (∀ slot ∈ free.take n, HasHost ws slot) ∨ ∀ slot ∈ free.drop n, ¬ HasHost ws slot

theorem rowOf_keptRows {port : Int} (hlisted : port ∈ listedPorts e listing) : rowOf (keptRows db.rows (listedPorts e listing)) port = rowOf db.rows port := by
  unfold rowOf keptRows
  rw [List.find?_filter]
  congr 1
  funext row
  by_cases hp : row.port = port
  · simp [hp, hlisted]
  · simp [hp]

section
variable (h : Indexed db.rows) {port : Int} (hlisted : port ∈ listedPorts e listing)
include h hlisted

theorem skips_listed : skips (keptRows db.rows (listedPorts e listing)) (stillMuted db (listedPorts e listing) now) port =
      true ↔ port ∈ db.mutedPorts now ∨ ∃ r ∈ db.rows, r.port = port ∧ r.visibility = .priv := by
  have hpriv : (rowOf db.rows port).any (·.visibility = .priv) = true ↔
      ∃ r ∈ db.rows, r.port = port ∧ r.visibility = .priv := by
    constructor
    · intro hany
      obtain ⟨r, hr, hv⟩ := (Option.any_eq_true _ _).1 hany
      exact ⟨r, (rowOf_some hr).1, (rowOf_some hr).2, of_decide_eq_true hv⟩
    · rintro ⟨r, hr, rfl, hv⟩
      rw [h.rowOf hr]
      exact decide_eq_true hv
  unfold skips stillMuted
  rw [rowOf_keptRows hlisted, Bool.or_eq_true, hpriv, decide_eq_true_iff, List.mem_filter]
  simp [hlisted]

theorem needsSlot_listed : needsSlot (keptRows db.rows (listedPorts e listing))
      (stillMuted db (listedPorts e listing) now) port = (port ∉ db.mutedPorts now &&
    db.rows.all fun row => row.port ≠ port || (row.visibility ≠ .priv && row.slot.isNone)) := by
  rw [Bool.eq_iff_iff, needsSlot, Bool.and_eq_true_iff, Bool.not_eq_true', ← Bool.not_eq_true,
    skips_listed h hlisted, rowOf_keptRows hlisted, not_or, Bool.and_eq_true_iff, decide_eq_true_iff, and_assoc]
  refine and_congr_right fun _ => ?_
  rw [List.all_eq_true]
  constructor
  · rintro ⟨hpub, hslot⟩ r hr
    by_cases hp : r.port = port
    · have hfind := h.rowOf hr
      rw [hp] at hfind
      rw [hfind] at hslot
      have hv : r.visibility ≠ .priv := fun hv => hpub ⟨r, hr, hp, hv⟩
      simpa [hp, hv] using hslot
    · simp [hp]
  · intro hall
    refine ⟨fun ⟨r, hr, hp, hv⟩ => by simpa [hp, hv] using hall r hr, ?_⟩
    cases hfind : rowOf db.rows port with
    | none => rfl
    | some r =>
      obtain ⟨hr, hp⟩ := rowOf_some hfind
      have hslot := hall r hr
      simp only [hp, ne_eq, not_true_eq_false, decide_false, Bool.false_or, Bool.and_eq_true] at hslot
      exact hslot.2

end

theorem countP_asking (now : Int) (h : Indexed db.rows) {ports : List Int} (hperm : ports.Perm (listedPorts e listing)) :
    ports.countP (needsSlot (keptRows db.rows (listedPorts e listing)) (stillMuted db (listedPorts e listing) now)) =
      (asking e db listing now).length := by
  rw [hperm.countP_eq, List.countP_eq_length_filter, asking]
  exact congrArg List.length (List.filter_congr fun port hport => needsSlot_listed h hport)

theorem mem_listedPorts {port : Int} : port ∈ listedPorts e listing ↔ port ∈ listing ∧ isInfraPort e port = false := by
  simp [listedPorts]

/-- A report that takes effect leaves the rows as the pass over the listed ports does. -/
theorem sync_handed (listing : List Int) (now : Int) (h : Indexed db.rows) (hrun : ws.state = .running) (hbackend : e.backend ≠ .local) :
    ∃ rows, syncListeningForwards e ws (some listing) now db =
        .ok { savedMutes db (listedPorts e listing) now with rows := rows } ∧
      Handed e ws (keptRows db.rows (listedPorts e listing)) (stillMuted db (listedPorts e listing) now)
        ((listedPorts e listing).insertionSort (· ≤ ·)) (freeSlots (keptRows db.rows (listedPorts e listing)))
        (keptRows db.rows (listedPorts e listing)) rows := by
  have hperm := List.perm_insertionSort (· ≤ ·) (listedPorts e listing)
  have hnodup : ((listedPorts e listing).insertionSort (· ≤ ·)).Nodup :=
    hperm.nodup_iff.2 (List.nodup_dedup _)
  have hkept : Indexed (keptRows db.rows (listedPorts e listing)) := h.filter _
  obtain ⟨rows, left, hfold, handed⟩ := syncPorts_spec e ws (stillMuted db (listedPorts e listing) now) hnodup hkept
    (fun _ _ => rfl) (freeSlots_nodup _) fun slot hslot r hr hs => (mem_freeSlots.1 hslot).2 ⟨r, hr, hs⟩
  exact ⟨rows, sync_eq hrun hbackend hfold, handed⟩

/-- The rows after a report leave no slot with a host free while a port goes without, exactly if no slot was lost. -/
theorem workConserving_iff (h : Indexed db.rows) (handed : Handed e ws (keptRows db.rows (listedPorts e listing))
      (stillMuted db (listedPorts e listing) now) ((listedPorts e listing).insertionSort (· ≤ ·))
      (freeSlots (keptRows db.rows (listedPorts e listing))) (keptRows db.rows (listedPorts e listing)) rows) :
    WorkConserving e ws db listing now rows ↔ NoSlotLost e ws db listing now := by
  have hperm := List.perm_insertionSort (· ≤ ·) (listedPorts e listing)
  have hnodup : ((listedPorts e listing).insertionSort (· ≤ ·)).Nodup :=
    hperm.nodup_iff.2 (List.nodup_dedup _)
  have hkept : Indexed (keptRows db.rows (listedPorts e listing)) := h.filter _
  have hcount := countP_asking now h hperm
  have hfree := freeSlots_nodup (keptRows db.rows (listedPorts e listing))
  constructor
  · intro hconserving
    by_contra hlost
    obtain ⟨hdead, hlive⟩ := not_or.1 hlost
    obtain ⟨slot, hslot, hnone⟩ := not_forall₂.1 hdead
    obtain ⟨other, hother, hhost⟩ := not_forall₂.1 hlive
    -- the slot without a host went to a port, which goes without; the other one is free
    rw [← hcount] at hslot hother
    obtain ⟨port, hmem, hneeds, hnext⟩ := exists_slotFor hnodup hslot
    have hlisted := hperm.mem_iff.1 hmem
    have hskip : ¬ skips (keptRows db.rows (listedPorts e listing)) (stillMuted db (listedPorts e listing) now) port =
        true := by simpa using (Bool.and_eq_true_iff.1 hneeds).1
    rw [skips_listed h hlisted, not_or] at hskip
    rcases hconserving port (mem_listedPorts.1 hlisted).1 (mem_listedPorts.1 hlisted).2 hskip.1
        fun r hr hp hv => hskip.2 ⟨r, hr, hp, hv⟩ with hforward | htaken
    · obtain ⟨slot', hnext', hurl⟩ := (handed.hasForward_iff hmem hneeds).1 hforward
      cases hnext.symm.trans hnext'
      exact hnone (publicSlotUrl_isSome.1 hurl)
    · have hmemfree := mem_freeSlots.1 (List.mem_of_mem_drop hother)
      rcases handed.taken_cases (htaken other hmemfree.1 (not_not.1 hhost)) with hheld | ⟨htake, -⟩
      · exact hmemfree.2 hheld
      · exact List.disjoint_take_drop hfree (Nat.le_refl _) htake hother
  · intro hlost port hport hinfra hmuted hpub
    have hlisted : port ∈ listedPorts e listing := mem_listedPorts.2 ⟨hport, hinfra⟩
    have hmem := hperm.mem_iff.2 hlisted
    have hskip : skips (keptRows db.rows (listedPorts e listing)) (stillMuted db (listedPorts e listing) now) port =
        false := by
      refine eq_false_of_ne_true fun hskip => ?_
      rcases (skips_listed h hlisted).1 hskip with hm | ⟨r, hr, hp, hv⟩
      · exact hmuted hm
      · exact hpub r hr hp hv
    by_cases hneeds : needsSlot (keptRows db.rows (listedPorts e listing))
        (stillMuted db (listedPorts e listing) now) port = true
    · by_cases hforward : HasForward rows port
      · exact .inl hforward
      · refine .inr fun slot hslot hhost => ?_
        rw [handed.taken_iff hkept hnodup, hcount, publicSlotUrl_isSome]
        by_cases hheld : Taken (keptRows db.rows (listedPorts e listing)) slot
        · exact .inl hheld
        · refine .inr ⟨?_, hhost⟩
          have hmemfree := mem_freeSlots.2 ⟨hslot, hheld⟩
          rw [← List.take_append_drop (asking e db listing now).length (freeSlots _)] at hmemfree
          refine (List.mem_append.1 hmemfree).resolve_right fun hdrop => ?_
          -- a slot with a host is left over, so the port got one without
          cases hnext : slotFor (keptRows db.rows (listedPorts e listing)) (stillMuted db (listedPorts e listing) now)
              ((listedPorts e listing).insertionSort (· ≤ ·)) (freeSlots (keptRows db.rows (listedPorts e listing))) port with
          | none =>
            rw [← hcount, slotFor_none hmem hnext] at hdrop
            cases hdrop
          | some got =>
            rcases hlost with hall | hno
            · have hgot := slotFor_needs hmem hneeds hnext
              rw [hcount] at hgot
              exact hforward ((handed.hasForward_iff hmem hneeds).2 ⟨got, hnext, publicSlotUrl_isSome.2 (hall got hgot)⟩)
            · exact hno slot hdrop hhost
    · exact .inl (handed.hasForward hmem hskip (eq_false_of_ne_true hneeds))

/-- The mutes that last, read later, are still those; saving them writes nothing. -/
theorem stillMuted_again {ports : List Int} {later : Int} {db' : ForwardsDb}
    (hmuted : db'.mutedPorts later = stillMuted db ports now) :
    stillMuted db' ports later = stillMuted db ports now ∧ savedMutes db' ports later = db' := by
  have hstill : stillMuted db' ports later = stillMuted db ports now := by
    unfold stillMuted at hmuted ⊢
    rw [hmuted, List.filter_filter]
    exact List.filter_congr fun port _ => Bool.and_self _
  refine ⟨hstill, ?_⟩
  rw [savedMutes, hstill, hmuted]
  exact if_neg (not_not.2 rfl)

/-- A report succeeds. It leaves no slot with a host free while a port goes without, exactly if no slot was lost; and
the same report once more, at any time the mutes are still the same, changes nothing. -/
theorem sync_conserves (h : Indexed db.rows) : ∃ db', syncListeningForwards e ws (some listing) now db = .ok db' ∧
    (ws.state = .running → e.backend ≠ .local →
      (WorkConserving e ws db listing now db'.rows ↔ NoSlotLost e ws db listing now)) ∧
    ∀ later, db'.mutedPorts later = db'.mutedPorts now →
      syncListeningForwards e ws (some listing) later db' = .ok db' := by
  by_cases hguard : ws.state ≠ .running ∨ e.backend = .local
  · have hskip : ∀ later, syncListeningForwards e ws (some listing) later db = .ok db := fun later => if_pos hguard
    refine ⟨db, hskip now, fun hrun hbackend => ?_, fun later _ => hskip later⟩
    exact (hguard.elim (fun hne => hne hrun) hbackend).elim
  · obtain ⟨hrun, hbackend⟩ := not_or.1 hguard
    have hrun := not_not.1 hrun
    obtain ⟨rows, hsync, handed⟩ := sync_handed listing now h hrun hbackend
    refine ⟨_, hsync, fun _ _ => workConserving_iff h handed, fun later hlater => ?_⟩
    have hperm := List.perm_insertionSort (· ≤ ·) (listedPorts e listing)
    have hnodup : ((listedPorts e listing).insertionSort (· ≤ ·)).Nodup := hperm.nodup_iff.2 (List.nodup_dedup _)
    obtain ⟨hstill, hsaved⟩ := stillMuted_again (hlater.trans (mutedPorts_savedMutes (listedPorts e listing)))
    obtain ⟨left, hagain⟩ := syncPorts_again hnodup handed.self
    rw [leftSlots, ← handed.freeSlots_eq (h.filter _) hnodup] at hagain
    have hkept := handed.keptRows_eq fun port => hperm.mem_iff
    have hsecond : syncListeningForwards e ws (some listing) later
        { savedMutes db (listedPorts e listing) now with rows := rows } =
          .ok { savedMutes { savedMutes db (listedPorts e listing) now with rows := rows }
            (listedPorts e listing) later with rows := rows } :=
      sync_eq hrun hbackend (by rw [hstill, hkept]; exact hagain)
    rw [hsecond, hsaved]

/-- Two servers, with a host for each of the first two slots. -/
theorem sync_conserves_two :
    ∃ db', syncListeningForwards sampleEnv ⟨"w", .running, some [(8444, "a.z"), (8445, "b.z")]⟩ (some [3000, 4000]) 0
        .empty = .ok db' ∧
      WorkConserving sampleEnv ⟨"w", .running, some [(8444, "a.z"), (8445, "b.z")]⟩ .empty [3000, 4000] 0 db'.rows := by
  obtain ⟨db', hsync, hconserves, -⟩ := sync_conserves (show Indexed ForwardsDb.empty.rows from RowsOk.nil.indexed)
  refine ⟨db', hsync, (hconserves rfl (by decide)).2 (.inl fun slot hslot => ?_)⟩
  have hslots : (freeSlots (keptRows ForwardsDb.empty.rows (listedPorts sampleEnv [3000, 4000]))).take
      (asking sampleEnv .empty [3000, 4000] 0).length = [8444, 8445] := by decide
  rw [hslots] at hslot
  rcases List.mem_pair.1 hslot with rfl | rfl
  · exact ⟨"a.z", rfl, by decide⟩
  · exact ⟨"b.z", rfl, by decide⟩

/-- A session without a host for the first slot: the one port gets none, though the second slot is free. -/
theorem slot_without_host_lost :
    let ws : ForwardWorkspace := ⟨"w", .running, some [(8445, "b.z")]⟩
    syncListeningForwards sampleEnv ws (some [3000]) 0 .empty = .ok .empty ∧
      ¬ WorkConserving sampleEnv ws .empty [3000] 0 [] := by
  refine ⟨by rfl, fun hconserving => ?_⟩
  rcases hconserving 3000 (List.mem_singleton.2 rfl) (by decide) (by decide) (by rintro _ ⟨⟩) with ⟨_, ⟨⟩, _⟩ | htaken
  obtain ⟨_, ⟨⟩, _⟩ := htaken 8445 (by decide) ⟨"b.z", rfl, by decide⟩

end Zedspaces.Web
