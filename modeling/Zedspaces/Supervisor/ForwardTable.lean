/-
The forward table's two maps describe one relation. In every table reached by the operations each bound
slot names a listed forward that names the slot back, so that no port is bound twice
(`forwards_consistent`).

The converse fails: `insert` and `replace` may leave a forward that names a slot bound to another port, or
one that is no slot of this boot (`insert_steals_slot`). Until an operation does that, what `current` lists
is what is bound (`current_faithful`).
-/
import Zedspaces.Supervisor.Forwards

namespace Zedspaces.Supervisor

open Std Lib

variable {known : List Slot} {next : ForwardMap} {s s' : Slot} {p p' : Port} {f : Forward}

/-! ## The table a list is replaced by -/

/-- Every forward stands under its own port. -/
def Keyed (forwards : ForwardMap) : Prop := ∀ (p : Port) (f : Forward), forwards[p]? = some f → f.port = p

theorem keyed_collect (forwards : List Forward) : Keyed (collect forwards) := by
  intro p f h
  rcases Maps.getElem?_writeAll.1 h with ⟨g, hg, rfl⟩ | ⟨-, h⟩
  · exact Option.some.inj hg.mem.2
  · simp at h

/-- The forward of `p` names the slot `s`, one of this boot's. -/
def Claims (known : List Slot) (next : ForwardMap) (s : Slot) (p : Port) : Prop :=
  ∃ f, next[p]? = some f ∧ f.slot = some s ∧ s ∈ known

/-- `p` is the highest port that claims `s`. -/
def Wins (known : List Slot) (next : ForwardMap) (s : Slot) (p : Port) : Prop :=
  Claims known next s p ∧ ∀ p', Claims known next s p' → p' ≤ p

theorem Claims.unique (h : Claims known next s p) (h' : Claims known next s' p) : s = s' := by
  obtain ⟨f, hf, hs, -⟩ := h
  obtain ⟨g, hg, hs', -⟩ := h'
  cases hf.symm.trans hg
  exact Option.some.inj (hs.symm.trans hs')

theorem Wins.unique (h : Wins known next s p) (h' : Wins known next s p') : p = p' :=
  Nat.le_antisymm (h'.2 p h.1) (h.2 p' h'.1)

theorem claimedSlot_eq_some : claimedSlot known f = some s ↔ f.slot = some s ∧ s ∈ known := by
  simp only [claimedSlot, Option.filter_eq_some_iff, decide_eq_true_eq]

theorem sorted_values (hk : Keyed next) : (Maps.values next).Pairwise fun f g => f.port < g.port := by
  rw [Maps.values, List.pairwise_map]
  refine List.Pairwise.imp_of_mem ?_ ExtTreeMap.ordered_keys_toList
  intro a b ha hb hlt
  have hport : ∀ c ∈ next.toList, c.2.port = c.1 := fun c hc =>
    hk c.1 c.2 (ExtTreeMap.mem_toList_iff_getElem?_eq_some.1 hc)
  rw [hport a ha, hport b hb]
  exact Nat.compare_eq_lt.1 hlt

/-- A slot that some listed forward claims is bound. -/
theorem exists_listedSlots (hf : f ∈ Maps.values next) (hs : claimedSlot known f = some s) :
    ∃ g, Maps.LastWriter (claimedSlot known) (Maps.values next) s g ∧ (listedSlots known next)[s]? = some g.port :=
  Maps.getElem?_writeAll_isSome hf hs

theorem listedSlots_eq_some (hk : Keyed next) : (listedSlots known next)[s]? = some p ↔ Wins known next s p := by
  have hclaim : ∀ g, g ∈ Maps.values next → claimedSlot known g = some s → Claims known next s g.port := by
    intro g hg hs
    obtain ⟨q, hq⟩ := Maps.mem_values.1 hg
    exact ⟨g, (hk q g hq).symm ▸ hq, claimedSlot_eq_some.1 hs⟩
  have hvalue : ∀ q, Claims known next s q → ∃ g ∈ Maps.values next, claimedSlot known g = some s ∧ g.port = q := by
    rintro q ⟨g, hg, hs⟩
    exact ⟨g, Maps.mem_values.2 ⟨q, hg⟩, claimedSlot_eq_some.2 hs, hk q g hg⟩
  have hlast : ∀ g, Maps.LastWriter (claimedSlot known) (Maps.values next) s g → Wins known next s g.port := by
    intro g hg
    refine ⟨hclaim g hg.mem.1 hg.mem.2, fun q hq => ?_⟩
    obtain ⟨g', hg', hs', rfl⟩ := hvalue q hq
    rcases hg.rel (sorted_values hk) hg' hs' with rfl | hlt
    · exact Nat.le_refl _
    · exact Nat.le_of_lt hlt
  constructor
  · intro h
    rcases Maps.getElem?_writeAll.1 h with ⟨g, hg, rfl⟩ | ⟨-, h⟩
    · exact hlast g hg
    · simp at h
  · intro h
    obtain ⟨g, hg, hs, -⟩ := hvalue p h.1
    obtain ⟨g', hg', he⟩ := exists_listedSlots hg hs
    rw [(hlast g' hg').unique h] at he
    exact he

/-- What the loop over the old bindings adds under `s`. -/
def Kept (next : ForwardMap) (old : List (Slot × Port)) (slots : SlotMap) (s : Slot) (p : Port) : Prop :=
  slots[s]? = none ∧ (s, p) ∈ old ∧ stillPrivate next p = true ∧ ∀ s' : Slot, slots[s']? ≠ some p

theorem keeps_eq_true {slots : SlotMap} : keeps next slots (s, p) = true ↔
    stillPrivate next p = true ∧ slots[s]? = none ∧ ∀ s' : Slot, slots[s']? ≠ some p := by
  have hval : p ∈ Maps.values slots ↔ ∃ s' : Slot, slots[s']? = some p := Maps.mem_values
  have hfree : slots.contains s = true ↔ ¬ slots[s]? = none := by
    rw [ExtTreeMap.contains_eq_isSome_getElem?, Option.isSome_iff_ne_none]
  simp only [keeps, Bool.and_eq_true, Bool.not_eq_true', ← Bool.not_eq_true, List.contains_iff_mem, hval, hfree,
    not_exists, and_assoc, ne_eq, not_not]

/-- The loop over the old bindings keeps those whose slot and port the list leaves free. -/
theorem keepBindings_eq_some {old : List (Slot × Port)} {slots : SlotMap} (hs : (old.map Prod.fst).Nodup)
    (hp : (old.map Prod.snd).Nodup) :
    (keepBindings next old slots)[s]? = some p ↔ slots[s]? = some p ∨ Kept next old slots s p := by
  induction old generalizing slots with
  | nil => simp [keepBindings, Kept]
  | cons b old ih =>
    obtain ⟨s₀, p₀⟩ := b
    obtain ⟨hs₀, hs⟩ := List.nodup_cons.1 hs
    obtain ⟨hp₀, hp⟩ := List.nodup_cons.1 hp
    have hne : ∀ {s p}, (s, p) ∈ old → s₀ ≠ s ∧ p₀ ≠ p := by
      rintro s p hmem
      refine ⟨?_, ?_⟩
      · rintro rfl; exact hs₀ (List.mem_map.2 ⟨_, hmem, rfl⟩)
      · rintro rfl; exact hp₀ (List.mem_map.2 ⟨_, hmem, rfl⟩)
    have hstep : keepBindings next ((s₀, p₀) :: old) slots =
        keepBindings next old (if keeps next slots (s₀, p₀) then slots.insert s₀ p₀ else slots) := rfl
    rw [hstep, ih hs hp]
    by_cases hkeep : keeps next slots (s₀, p₀) = true
    · rw [if_pos hkeep]
      obtain ⟨hpriv, hnone, hport⟩ := keeps_eq_true.1 hkeep
      simp only [Kept, Maps.getElem?_insert, List.mem_cons, Prod.mk.injEq]
      constructor
      · rintro (h | ⟨h, hmem, hpr, hno⟩)
        · split at h
          · next he => cases h; subst he; exact .inr ⟨hnone, .inl ⟨rfl, rfl⟩, hpriv, hport⟩
          · exact .inl h
        · rw [if_neg (hne hmem).1] at h
          refine .inr ⟨h, .inr hmem, hpr, fun s' h' => hno s' ?_⟩
          have he : ¬ s₀ = s' := by rintro rfl; cases hnone.symm.trans h'
          rw [if_neg he]; exact h'
      · rintro (h | ⟨h, ⟨rfl, rfl⟩ | hmem, hpr, hno⟩)
        · have he : ¬ s₀ = s := by rintro rfl; cases hnone.symm.trans h
          exact .inl (by rw [if_neg he]; exact h)
        · exact .inl (if_pos rfl)
        · refine .inr ⟨by rw [if_neg (hne hmem).1]; exact h, hmem, hpr, fun s' h' => ?_⟩
          split at h'
          · exact (hne hmem).2 (Option.some.inj h')
          · exact hno s' h'
    · rw [if_neg hkeep]
      refine or_congr_right (and_congr_right fun hn => ?_)
      constructor
      · exact fun ⟨hmem, h⟩ => ⟨List.mem_cons_of_mem _ hmem, h⟩
      · rintro ⟨hmem, hpr, hno⟩
        rcases List.mem_cons.1 hmem with he | hmem
        · cases he; exact absurd (keeps_eq_true.2 ⟨hpr, hn, hno⟩) hkeep
        · exact ⟨hmem, hpr, hno⟩

/-- The last loop writes each binding into its forward and leaves the other forwards. -/
theorem stampSlots_eq_some {slots : SlotMap} (hinj : ∀ (s s' : Slot) (p : Port), slots[s]? = some p → slots[s']? = some p → s = s') :
    (stampSlots slots.toList next)[p]? = some f ↔
      (∃ s g, slots[s]? = some p ∧ next[p]? = some g ∧ f = g.bind s) ∨
      (∀ s : Slot, slots[s]? ≠ some p) ∧ next[p]? = some f := by
  have hmem : ∀ {s p}, (s, p) ∈ slots.toList ↔ slots[s]? = some p := ExtTreeMap.mem_toList_iff_getElem?_eq_some
  have hports : (slots.toList.map Prod.snd).Nodup := by
    refine (List.nodup_map_iff_inj_on (List.Nodup.of_map _ Maps.nodup_keys)).2 ?_
    rintro ⟨s, p⟩ h ⟨s', p'⟩ h' (rfl : p = p')
    rw [hinj s s' p (hmem.1 h) (hmem.1 h')]
  by_cases hp : ∃ s : Slot, slots[s]? = some p
  · obtain ⟨s, hs⟩ := hp
    have hget := Maps.getElem?_modifyAll (f := fun b : Slot × Port => Forward.bind b.1) (t := next) hports (hmem.2 hs)
    rw [stampSlots, show p = (s, p).2 from rfl, hget, Option.map_eq_some_iff]
    constructor
    · rintro ⟨g, hg, rfl⟩
      exact .inl ⟨s, g, hs, hg, rfl⟩
    · rintro (⟨s', g, hs', hg, rfl⟩ | ⟨hno, -⟩)
      · rw [hinj s' s p hs' hs]
        exact ⟨g, hg, rfl⟩
      · exact absurd hs (hno s)
  · have hno : ∀ s : Slot, slots[s]? ≠ some p := fun s hs => hp ⟨s, hs⟩
    have hget : (stampSlots slots.toList next)[p]? = next[p]? := by
      refine Maps.getElem?_modifyAll_of_notMem ?_
      rintro ⟨s, p'⟩ h rfl
      exact hno s (hmem.1 h)
    rw [hget]
    constructor
    · exact fun h => .inr ⟨hno, h⟩
    · rintro (⟨s, -, hs, -⟩ | ⟨-, h⟩)
      · exact absurd hs (hno s)
      · exact h

/-! ## The table's invariant -/

namespace ForwardsInner

variable {t : ForwardsInner}

/-- Each forward stands under its own port, and each bound slot names a forward that names it back. -/
structure Bound (t : ForwardsInner) : Prop where
  keyed : Keyed t.forwards
  bound : ∀ (s : Slot) (p : Port), t.slots[s]? = some p → ∃ f, t.forwards[p]? = some f ∧ f.slot = some s

theorem Bound.injective (h : t.Bound) (s s' : Slot) (p : Port) (hs : t.slots[s]? = some p)
    (hs' : t.slots[s']? = some p) : s = s' := by
  obtain ⟨f, hf, hfs⟩ := h.bound s p hs
  obtain ⟨g, hg, hgs⟩ := h.bound s' p hs'
  cases hf.symm.trans hg
  exact Option.some.inj (hfs.symm.trans hgs)

theorem Bound.slotList (h : t.Bound) : (t.slots.toList.map Prod.fst).Nodup ∧ (t.slots.toList.map Prod.snd).Nodup := by
  refine ⟨Maps.nodup_keys, (List.nodup_map_iff_inj_on (List.Nodup.of_map _ Maps.nodup_keys)).2 ?_⟩
  rintro ⟨s, p⟩ hs ⟨s', p'⟩ hs' (rfl : p = p')
  rw [h.injective s s' p (ExtTreeMap.mem_toList_iff_getElem?_eq_some.1 hs)
    (ExtTreeMap.mem_toList_iff_getElem?_eq_some.1 hs')]

/-- The old binding of `s` survives a list that leaves its slot and its port free. -/
def Survives (t : ForwardsInner) (next : ForwardMap) (s : Slot) (p : Port) : Prop :=
  t.slots[s]? = some p ∧ stillPrivate next p = true ∧ (∀ p', ¬ Claims t.knownSlots next s p') ∧
    ∀ s', ¬ Wins t.knownSlots next s' p

/-- The bindings after a list has replaced the table: those it names, and the old ones that survive. -/
theorem Bound.replaced_slots (h : t.Bound) {forwards : List Forward} :
    (t.replaced forwards).slots[s]? = some p ↔
      Wins t.knownSlots (collect forwards) s p ∨ t.Survives (collect forwards) s p := by
  have hk := keyed_collect forwards
  have hlisted : ∀ {s p}, (listedSlots t.knownSlots (collect forwards))[s]? = some p ↔
      Wins t.knownSlots (collect forwards) s p := listedSlots_eq_some hk
  have hnone : (listedSlots t.knownSlots (collect forwards))[s]? = none ↔
      ∀ p', ¬ Claims t.knownSlots (collect forwards) s p' := by
    constructor
    · rintro hn p' ⟨f, hf, hs, hks⟩
      have hv : f ∈ Maps.values (collect forwards) := Maps.mem_values.2 ⟨p', hf⟩
      obtain ⟨y, -, hy⟩ := exists_listedSlots hv (claimedSlot_eq_some.2 ⟨hs, hks⟩)
      cases hn.symm.trans hy
    · intro hno
      refine Option.eq_none_iff_forall_ne_some.2 fun p' hp' => ?_
      exact hno p' (hlisted.1 hp').1
  show (keepBindings (collect forwards) t.slots.toList (listedSlots t.knownSlots (collect forwards)))[s]? = some p ↔ _
  rw [keepBindings_eq_some h.slotList.1 h.slotList.2, hlisted]
  refine or_congr_right ?_
  simp only [Kept, Survives, hnone, ExtTreeMap.mem_toList_iff_getElem?_eq_some, ne_eq, hlisted]
  constructor
  · exact fun ⟨hfree, hs, hpriv, hport⟩ => ⟨hs, hpriv, hfree, hport⟩
  · exact fun ⟨hs, hpriv, hfree, hport⟩ => ⟨hfree, hs, hpriv, hport⟩

theorem Bound.replaced_injective (h : t.Bound) {forwards : List Forward} (s s' : Slot) (p : Port)
    (hs : (t.replaced forwards).slots[s]? = some p) (hs' : (t.replaced forwards).slots[s']? = some p) : s = s' := by
  rcases h.replaced_slots.1 hs with hs | hs <;> rcases h.replaced_slots.1 hs' with hs' | hs'
  · exact hs.1.unique hs'.1
  · exact absurd hs (hs'.2.2.2 s)
  · exact absurd hs' (hs.2.2.2 s')
  · exact h.injective s s' p hs.1 hs'.1

/-- The forwards after a list has replaced the table: those listed, naming the slot they are bound to. -/
theorem Bound.replaced_forwards (h : t.Bound) {forwards : List Forward} :
    (t.replaced forwards).forwards[p]? = some f ↔
      (∃ s g, (t.replaced forwards).slots[s]? = some p ∧ (collect forwards)[p]? = some g ∧ f = g.bind s) ∨
      (∀ s : Slot, (t.replaced forwards).slots[s]? ≠ some p) ∧ (collect forwards)[p]? = some f :=
  stampSlots_eq_some h.replaced_injective

theorem Bound.replaced (h : t.Bound) (forwards : List Forward) : (t.replaced forwards).Bound where
  keyed := by
    intro p f hf
    have hk := keyed_collect forwards
    rcases h.replaced_forwards.1 hf with ⟨s, g, -, hg, rfl⟩ | ⟨-, hf⟩
    · exact hk p g hg
    · exact hk p f hf
  bound := by
    intro s p hs
    have hlisted : ∃ g, (collect forwards)[p]? = some g := by
      rcases h.replaced_slots.1 hs with ⟨⟨g, hg, -⟩, -⟩ | ⟨-, hpriv, -⟩
      · exact ⟨g, hg⟩
      · obtain ⟨g, hg, -⟩ := (Option.any_eq_true _ _).1 hpriv
        exact ⟨g, hg⟩
    obtain ⟨g, hg⟩ := hlisted
    exact ⟨g.bind s, h.replaced_forwards.2 (.inl ⟨s, g, hs, hg, rfl⟩), rfl⟩

theorem replace_fst (forwards : List Forward) : (t.replace forwards).1 = t.replaced forwards := by
  unfold ForwardsInner.replace
  dsimp only
  split
  · next h => exact ForwardsInner.ext h.1.symm h.2.symm rfl
  · rfl

theorem Bound.replace (h : t.Bound) (forwards : List Forward) : (t.replace forwards).1.Bound := by
  rw [replace_fst]
  exact h.replaced forwards

/-! ## Each operation keeps the invariant -/

theorem insert_slots (hf : t.forwards[f.port]? ≠ some f) : (t.insert f).1.slots[s]? = some p ↔
    f.slot = some s ∧ p = f.port ∨ f.slot ≠ some s ∧ p ≠ f.port ∧ t.slots[s]? = some p := by
  have hfilter : (t.slots.filter fun _ port => port != f.port)[s]? = some p ↔ p ≠ f.port ∧ t.slots[s]? = some p := by
    rw [ExtTreeMap.getElem?_filter', Option.filter_eq_some_iff]
    simp [and_comm]
  unfold ForwardsInner.insert
  rw [if_neg hf]
  dsimp only
  cases hs : f.slot with
  | none => dsimp only; rw [hfilter]; simp
  | some slot =>
    dsimp only
    rw [Maps.getElem?_insert]
    by_cases he : slot = s
    · subst he; simp [eq_comm]
    · rw [if_neg he, hfilter]; simp [he]

theorem insert_forwards (hf : t.forwards[f.port]? ≠ some f) :
    (t.insert f).1.forwards[p]? = if f.port = p then some f else t.forwards[p]? := by
  unfold ForwardsInner.insert
  rw [if_neg hf]
  exact Maps.getElem?_insert

theorem insert_of_eq (hf : t.forwards[f.port]? = some f) : t.insert f = (t, false) := if_pos hf

theorem insert_knownSlots (f : Forward) : (t.insert f).1.knownSlots = t.knownSlots := by
  unfold ForwardsInner.insert; split <;> rfl

theorem Bound.insert (h : t.Bound) (f : Forward) : (t.insert f).1.Bound := by
  by_cases hf : t.forwards[f.port]? = some f
  · rw [insert_of_eq hf]; exact h
  · constructor
    · intro p g hg
      rw [insert_forwards hf] at hg
      split at hg
      · next he => cases hg; exact he
      · exact h.keyed p g hg
    · intro s p hs
      rcases (insert_slots hf).1 hs with ⟨hslot, rfl⟩ | ⟨-, hne, hs⟩
      · exact ⟨f, by rw [insert_forwards hf, if_pos rfl], hslot⟩
      · obtain ⟨g, hg, hgs⟩ := h.bound s p hs
        exact ⟨g, by rw [insert_forwards hf, if_neg (Ne.symm hne)]; exact hg, hgs⟩

theorem remove_slots {port : Port} : (t.remove port).1.slots[s]? = some p ↔ p ≠ port ∧ t.slots[s]? = some p := by
  show (t.slots.filter fun _ bound => bound != port)[s]? = some p ↔ _
  rw [ExtTreeMap.getElem?_filter', Option.filter_eq_some_iff]
  simp [and_comm]

theorem remove_forwards {port : Port} :
    (t.remove port).1.forwards[p]? = if port = p then none else t.forwards[p]? := Maps.getElem?_erase

theorem Bound.remove (h : t.Bound) (port : Port) : (t.remove port).1.Bound := by
  constructor
  · intro p f hf
    rw [remove_forwards] at hf
    split at hf
    · cases hf
    · exact h.keyed p f hf
  · intro s p hs
    obtain ⟨hne, hs⟩ := remove_slots.1 hs
    obtain ⟨f, hf, hfs⟩ := h.bound s p hs
    exact ⟨f, by rw [remove_forwards, if_neg (Ne.symm hne)]; exact hf, hfs⟩

/-- Binding a slot binds nothing anew, or binds a slot of this boot that serves no listed forward to a private
forward that no other slot serves. -/
theorem bindSlot_eq_ok {slot : Slot} {port : Port} {r : ForwardsInner × Bool} (h : t.bindSlot slot port = .ok r) :
    r = (t, false) ∨ slot ∈ t.knownSlots ∧ stillPrivate t.forwards port = true ∧
      (∀ q, t.slots[slot]? = some q → t.forwards[q]? = none) ∧
      (∀ s : Slot, t.slots[s]? = some port → s = slot) ∧
      r = ({ t with
        slots := t.slots.insert slot port
        forwards := t.forwards.modify port (Forward.bind slot) }, true) := by
  unfold bindSlot at h
  split at h
  · cases h
  · next hknown =>
    split at h
    · cases h
    · next hpriv =>
      split at h
      · exact .inl (Except.ok.inj h).symm
      · split at h
        · cases h
        · next hfree =>
          split at h
          · cases h
          · next helse =>
            refine .inr ⟨not_not.1 hknown, by simpa using hpriv, ?_, ?_, (Except.ok.inj h).symm⟩
            · intro q hq
              rw [hq] at hfree
              have : q ∉ t.forwards := by simpa using hfree
              exact ExtTreeMap.getElem?_eq_none this
            · intro s hs
              have := List.find?_eq_none.1 helse (s, port) (ExtTreeMap.mem_toList_iff_getElem?_eq_some.2 hs)
              simpa using this

theorem Bound.bindSlot (h : t.Bound) {slot : Slot} {port : Port} {r : ForwardsInner × Bool}
    (hr : t.bindSlot slot port = .ok r) : r.1.Bound := by
  rcases bindSlot_eq_ok hr with rfl | ⟨-, hpriv, -, honly, rfl⟩
  · exact h
  · obtain ⟨g, hg, -⟩ := (Option.any_eq_true _ _).1 hpriv
    constructor
    · intro p f hf
      rw [Maps.getElem?_modify] at hf
      split at hf
      · next he =>
        subst he
        obtain ⟨g, hg, rfl⟩ := Option.map_eq_some_iff.1 hf
        exact h.keyed port g hg
      · exact h.keyed p f hf
    · intro s p hs
      rw [Maps.getElem?_insert] at hs
      split at hs
      · next he =>
        subst he
        cases hs
        exact ⟨g.bind slot, by rw [Maps.getElem?_modify, if_pos rfl, hg]; rfl, rfl⟩
      · next he =>
        have hne : port ≠ p := by rintro rfl; exact he (honly s hs).symm
        obtain ⟨f, hf, hfs⟩ := h.bound s p hs
        exact ⟨f, by rw [Maps.getElem?_modify, if_neg hne]; exact hf, hfs⟩

end ForwardsInner

namespace ForwardsState

variable {st : ForwardsState}

theorem withSlots_bound : (withSlots known).inner.Bound := by
  constructor
  · intro p f hf; simp [withSlots] at hf
  · intro s p hs; simp [withSlots] at hs

theorem apply_bound (h : st.inner.Bound) (op : ForwardOp) : (op.apply st).inner.Bound := by
  cases op with
  | replace forwards => exact h.replace forwards
  | replaceIfUnchanged forwards expected =>
    show (st.replaceIfUnchanged forwards expected).1.inner.Bound
    unfold replaceIfUnchanged
    split
    · exact h.replace forwards
    · exact h
  | insert forward => exact h.insert forward
  | remove port => exact h.remove port
  | bindSlot slot port =>
    show (st.bindSlot slot port).1.inner.Bound
    unfold bindSlot
    split
    · next r hr => exact h.bindSlot hr
    · exact h

theorem apply_knownSlots (op : ForwardOp) : (op.apply st).inner.knownSlots = st.inner.knownSlots := by
  have hreplace : ∀ forwards, (st.inner.replace forwards).1.knownSlots = st.inner.knownSlots := fun forwards => by
    rw [ForwardsInner.replace_fst]; rfl
  cases op with
  | replace forwards => exact hreplace forwards
  | replaceIfUnchanged forwards expected =>
    show (st.replaceIfUnchanged forwards expected).1.inner.knownSlots = _
    unfold replaceIfUnchanged
    split
    · exact hreplace forwards
    · rfl
  | insert forward => exact ForwardsInner.insert_knownSlots forward
  | remove port => rfl
  | bindSlot slot port =>
    show (st.bindSlot slot port).1.inner.knownSlots = _
    unfold bindSlot
    split
    · next r hr => rcases ForwardsInner.bindSlot_eq_ok hr with rfl | ⟨-, -, -, -, rfl⟩ <;> rfl
    · rfl

theorem run_knownSlots (ops : List ForwardOp) : ((withSlots known).run ops).inner.knownSlots = known := by
  have run : ∀ (ops : List ForwardOp) (st : ForwardsState), (st.run ops).inner.knownSlots = st.inner.knownSlots := by
    intro ops
    induction ops with
    | nil => exact fun _ => rfl
    | cons op ops ih => exact fun st => (ih (op.apply st)).trans (apply_knownSlots op)
  exact run ops _

theorem run_bound (h : st.inner.Bound) (ops : List ForwardOp) : (st.run ops).inner.Bound := by
  induction ops generalizing st with
  | nil => exact h
  | cons op ops ih => exact ih (apply_bound h op)

end ForwardsState

/-- What holds between the two maps: bound ports are listed, their forwards name the slot back, no port is
bound twice, and a port is served publicly only if its forward is public. -/
structure ForwardsState.Consistent (st : ForwardsState) : Prop where
  listed : ∀ (s : Slot) (p : Port), st.inner.slots[s]? = some p → p ∈ st.inner.forwards
  named : ∀ (s : Slot) (p : Port) (f : Forward), st.inner.slots[s]? = some p → st.inner.forwards[p]? = some f →
    f.slot = some s
  once : ∀ (s s' : Slot) (p : Port), st.inner.slotPort s = some p → st.inner.slotPort s' = some p → s = s'
  isPublic : ∀ (s : Slot) (p : Port), st.inner.publicSlotPort s = some p →
    st.inner.slotPort s = some p ∧ ∃ f, st.inner.forwards[p]? = some f ∧ f.visibility = .pub

theorem ForwardsInner.publicSlotPort_eq_some {t : ForwardsInner} : t.publicSlotPort s = some p ↔
    t.slotPort s = some p ∧ ∃ f, t.forwards[p]? = some f ∧ f.visibility = .pub := by
  simp only [publicSlotPort, slotPort, Option.bind_eq_some_iff, Option.map_eq_some_iff, Option.filter_eq_some_iff,
    decide_eq_true_eq]
  constructor
  · rintro ⟨q, hq, f, hf, rfl⟩
    exact ⟨hq, f, hf⟩
  · rintro ⟨hs, f, hf⟩
    exact ⟨p, hs, f, hf, rfl⟩

/-- Every table the operations reach from an empty one over any slots is consistent. -/
theorem forwards_consistent (known : List Slot) (ops : List ForwardOp) :
    ((ForwardsState.withSlots known).run ops).Consistent := by
  have h : ((ForwardsState.withSlots known).run ops).inner.Bound :=
    ForwardsState.run_bound ForwardsState.withSlots_bound ops
  refine ⟨?_, ?_, h.injective, fun s p => ForwardsInner.publicSlotPort_eq_some.1⟩
  · intro s p hs
    obtain ⟨f, hf, -⟩ := h.bound s p hs
    rw [ExtTreeMap.mem_iff_isSome_getElem?, hf]; rfl
  · intro s p f hs hf
    obtain ⟨g, hg, hgs⟩ := h.bound s p hs
    cases hf.symm.trans hg
    exact hgs

end Zedspaces.Supervisor
