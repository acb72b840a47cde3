/-
What `current` lists against what is bound. `current` is documented to reflect the live bindings, and it
does as long as no operation lists a slot for a port it does not end up serving: an `insert` that names a
slot of another port, or one that is not a slot of this boot, leaves a listed forward with a stale slot, and
so does a list that names one slot for two ports (`current_faithful`).
-/
import Zedspaces.Supervisor.ForwardTable

namespace Zedspaces.Supervisor

open Std Lib

variable {known : List Slot} {next : ForwardMap} {s s' : Slot} {p p' : Port} {f : Forward}

/-- Collecting the values of a keyed map gives it back. -/
theorem collect_values (hk : Keyed next) : collect (Maps.values next) = next := by
  have hvalue : ∀ g, g ∈ Maps.values next ↔ next[g.port]? = some g := by
    intro g
    constructor
    · intro hg
      obtain ⟨q, hq⟩ := Maps.mem_values.1 hg
      rw [hk q g hq]; exact hq
    · exact fun hg => Maps.mem_values.2 ⟨g.port, hg⟩
  refine ExtTreeMap.ext_getElem? fun p => Option.ext fun f => ?_
  rw [collect, Maps.getElem?_writeAll]
  constructor
  · rintro (⟨g, hg, rfl⟩ | ⟨-, h⟩)
    · obtain ⟨hmem, hport⟩ := hg.mem
      rw [← Option.some.inj hport]
      exact (hvalue g).1 hmem
    · simp at h
  · intro hf
    have hmem : f ∈ Maps.values next := Maps.mem_values.2 ⟨p, hf⟩
    obtain ⟨g, hg⟩ : ∃ g, Maps.LastWriter (fun f : Forward => some f.port) _ p g :=
      Maps.exists_lastWriter hmem (congrArg some (hk p f hf))
    obtain ⟨hgmem, hport⟩ := hg.mem
    have hg' := (hvalue g).1 hgmem
    rw [Option.some.inj hport, hf] at hg'
    exact .inl ⟨g, hg, (Option.some.inj hg').symm⟩

namespace ForwardsInner

variable {t : ForwardsInner}

/-- A listed forward that names a slot is bound to it, and the slot is one of this boot's. -/
def Faithful (t : ForwardsInner) : Prop :=
  ∀ (p : Port) (f : Forward) (s : Slot), t.forwards[p]? = some f → f.slot = some s →
    t.slots[s]? = some p ∧ s ∈ t.knownSlots

/-- Each listed forward that names a slot gets it, as the highest port that names it, or keeps the slot it has. -/
def Serves (t : ForwardsInner) (forwards : List Forward) : Prop :=
  ∀ (p : Port) (f : Forward) (s : Slot), (collect forwards)[p]? = some f → f.slot = some s →
    (s ∈ t.knownSlots ∧ ∀ p', Claims t.knownSlots (collect forwards) s p' → p' ≤ p) ∨
    ∃ s' : Slot, t.slots[s']? = some p ∧ stillPrivate (collect forwards) p = true ∧
      ∀ p', ¬ Claims t.knownSlots (collect forwards) s' p'

theorem Bound.replaced_faithful_iff (h : t.Bound) (hf : t.Faithful) (forwards : List Forward) :
    (t.replaced forwards).Faithful ↔ t.Serves forwards := by
  constructor
  · intro hfaith p f s hnext hs
    by_cases hbound : ∃ s' : Slot, (t.replaced forwards).slots[s']? = some p
    · obtain ⟨s', hs'⟩ := hbound
      rcases h.replaced_slots.1 hs' with hw | ⟨hold, hpriv, hno, -⟩
      · obtain ⟨⟨g, hg, hgs, hknown⟩, hmax⟩ := hw
        cases hnext.symm.trans hg
        cases hs.symm.trans hgs
        exact .inl ⟨hknown, hmax⟩
      · exact .inr ⟨s', hold, hpriv, hno⟩
    · have hno : ∀ s' : Slot, (t.replaced forwards).slots[s']? ≠ some p := fun s' hs' => hbound ⟨s', hs'⟩
      exact absurd (hfaith p f s (h.replaced_forwards.2 (.inr ⟨hno, hnext⟩)) hs).1 (hno s)
  · intro hserves p f s hfw hs
    have hslot : (t.replaced forwards).slots[s]? = some p := by
      rcases h.replaced_forwards.1 hfw with ⟨s', g, hs', -, rfl⟩ | ⟨hno, hnext⟩
      · cases hs; exact hs'
      · exfalso
        rcases hserves p f s hnext hs with ⟨hknown, hmax⟩ | ⟨s', hold, hpriv, hfree⟩
        · exact hno s (h.replaced_slots.2 (.inl ⟨⟨f, hnext, hs, hknown⟩, hmax⟩))
        · refine hno s' (h.replaced_slots.2 (.inr ⟨hold, hpriv, hfree, fun s'' hw => ?_⟩))
          exact hno s'' (h.replaced_slots.2 (.inl hw))
    refine ⟨hslot, ?_⟩
    rcases h.replaced_slots.1 hslot with ⟨⟨-, -, -, hknown⟩, -⟩ | ⟨hold, -⟩
    · exact hknown
    · obtain ⟨g, hg, hgs⟩ := h.bound s p hold
      exact (hf p g s hg hgs).2

/-- The forward is listed as it is, or the slot it names is one of this boot's and serves no other port. -/
def Takes (t : ForwardsInner) (f : Forward) : Prop :=
  t.forwards[f.port]? = some f ∨
    ∀ s : Slot, f.slot = some s → s ∈ t.knownSlots ∧ ∀ p : Port, t.slots[s]? = some p → p = f.port

theorem Bound.insert_faithful_iff (h : t.Bound) (hf : t.Faithful) (f : Forward) :
    (t.insert f).1.Faithful ↔ t.Takes f := by
  by_cases heq : t.forwards[f.port]? = some f
  · rw [insert_of_eq heq]
    exact ⟨fun _ => .inl heq, fun _ => hf⟩
  · constructor
    · refine fun hfaith => .inr fun s hs => ?_
      have hown : (t.insert f).1.forwards[f.port]? = some f := by rw [insert_forwards heq, if_pos rfl]
      have hserved := hfaith f.port f s hown hs
      refine ⟨insert_knownSlots f ▸ hserved.2, fun p hp => ?_⟩
      by_contra hne
      obtain ⟨g, hg, hgs⟩ := h.bound s p hp
      have hg' : (t.insert f).1.forwards[p]? = some g := by rw [insert_forwards heq, if_neg (Ne.symm hne)]; exact hg
      have := (hfaith p g s hg' hgs).1
      exact hne (Option.some.inj (this.symm.trans hserved.1))
    · intro htakes p g s hg hgs
      have htakes := htakes.resolve_left heq
      rw [insert_knownSlots]
      rw [insert_forwards heq] at hg
      split at hg
      · next he =>
        cases hg
        exact ⟨(insert_slots heq).2 (.inl ⟨hgs, he.symm⟩), (htakes s hgs).1⟩
      · next hne =>
        obtain ⟨hs, hknown⟩ := hf p g s hg hgs
        refine ⟨(insert_slots heq).2 (.inr ⟨fun hfs => ?_, Ne.symm hne, hs⟩), hknown⟩
        exact hne ((htakes s hfs).2 p hs).symm

theorem Faithful.remove (h : t.Faithful) (port : Port) : (t.remove port).1.Faithful := by
  intro p f s hf hs
  rw [remove_forwards] at hf
  split at hf
  · cases hf
  · next hne =>
    obtain ⟨hslot, hknown⟩ := h p f s hf hs
    exact ⟨remove_slots.2 ⟨Ne.symm hne, hslot⟩, hknown⟩

theorem Faithful.bindSlot (h : t.Faithful) {slot : Slot} {port : Port} {r : ForwardsInner × Bool}
    (hr : t.bindSlot slot port = .ok r) : r.1.Faithful := by
  rcases bindSlot_eq_ok hr with rfl | ⟨hknown, -, hfree, honly, rfl⟩
  · exact h
  · intro p f s hf hs
    show ((t.slots.insert slot port)[s]? = some p) ∧ s ∈ t.knownSlots
    rw [Maps.getElem?_insert]
    rw [Maps.getElem?_modify] at hf
    split at hf
    · next he =>
      subst he
      obtain ⟨g, -, rfl⟩ := Option.map_eq_some_iff.1 hf
      cases hs
      exact ⟨if_pos rfl, hknown⟩
    · next hne =>
      obtain ⟨hslot, hk⟩ := h p f s hf hs
      have hdiff : slot ≠ s := by
        rintro rfl
        cases (hfree p hslot).symm.trans hf
      exact ⟨by rw [if_neg hdiff]; exact hslot, hk⟩

/-! ## Replaying the listing -/

/-- A faithful table replaced by what it lists is itself. -/
theorem Faithful.replay (h : t.Faithful) (hb : t.Bound) : t.replace t.current = (t, false) := by
  have hnext : collect t.current = t.forwards := collect_values hb.keyed
  have hslots : ∀ (s : Slot) (p : Port), (t.replaced t.current).slots[s]? = some p ↔ t.slots[s]? = some p := by
    intro s p
    rw [hb.replaced_slots, hnext]
    constructor
    · rintro (⟨⟨f, hf, hs, -⟩, -⟩ | ⟨hs, -⟩)
      · exact (h p f s hf hs).1
      · exact hs
    · intro hs
      obtain ⟨f, hf, hfs⟩ := hb.bound s p hs
      refine .inl ⟨⟨f, hf, hfs, (h p f s hf hfs).2⟩, ?_⟩
      rintro p' ⟨g, hg, hgs, -⟩
      exact Nat.le_of_eq (Option.some.inj ((h p' g s hg hgs).1.symm.trans hs))
  have hforwards : ∀ (p : Port) (f : Forward), (t.replaced t.current).forwards[p]? = some f ↔ t.forwards[p]? = some f := by
    intro p f
    rw [hb.replaced_forwards, hnext]
    have hown : ∀ (s : Slot) (g : Forward), t.slots[s]? = some p → t.forwards[p]? = some g → g.bind s = g := by
      intro s g hs hg
      obtain ⟨g', hg', hgs⟩ := hb.bound s p hs
      cases hg.symm.trans hg'
      rw [Forward.bind, ← hgs]
    simp only [hslots, ne_eq]
    constructor
    · rintro (⟨s, g, hs, hg, rfl⟩ | ⟨-, hf⟩)
      · rw [hown s g hs hg]; exact hg
      · exact hf
    · intro hf
      by_cases hbound : ∃ s : Slot, t.slots[s]? = some p
      · obtain ⟨s, hs⟩ := hbound
        exact .inl ⟨s, f, hs, hf, (hown s f hs hf).symm⟩
      · exact .inr ⟨fun s hs => hbound ⟨s, hs⟩, hf⟩
  refine if_pos ⟨ExtTreeMap.ext_getElem? fun p => Option.ext fun f => ?_, ExtTreeMap.ext_getElem? fun s => Option.ext fun p => ?_⟩
  · exact hforwards p f
  · exact hslots s p

/-- In a faithful table an inserted forward is served by the slot of this boot it names. -/
theorem Faithful.insert_served (h : t.Faithful) (hs : f.slot = some s) :
    (t.insert f).1.slotPort s = some f.port := by
  by_cases heq : t.forwards[f.port]? = some f
  · rw [insert_of_eq heq]
    exact (h f.port f s heq hs).1
  · exact (insert_slots heq).2 (.inl ⟨hs, rfl⟩)

end ForwardsInner

/-! ## Runs -/

/-- `current` reflects the bindings; putting it back changes nothing, not even the generation; and an
inserted forward is served by the slot it names. -/
structure ForwardsState.ListsBindings (st : ForwardsState) : Prop where
  listed : ∀ f ∈ st.inner.current, ∀ s, f.slot = some s →
    st.inner.slotPort s = some f.port ∧ s ∈ st.inner.knownSlots
  replay : st.replace st.inner.current = st
  served : ∀ f s, f.slot = some s → s ∈ st.inner.knownSlots → (st.insert f).inner.slotPort s = some f.port

/-- The operation lists no slot for a port that the slot does not end up serving. -/
def ForwardOp.ServesListed (st : ForwardsState) : ForwardOp → Prop
  | .replace forwards => st.inner.Serves forwards
  | .replaceIfUnchanged forwards expected => expected.all (st.changed = ·) = true → st.inner.Serves forwards
  | .insert forward => st.inner.Takes forward
  | .remove _ => True
  | .bindSlot _ _ => True

namespace ForwardsState

variable {st : ForwardsState}

theorem listsBindings_iff (hb : st.inner.Bound) : st.ListsBindings ↔ st.inner.Faithful := by
  constructor
  · intro h p f s hf hs
    have := h.listed f (Maps.mem_values.2 ⟨p, hf⟩) s hs
    rw [hb.keyed p f hf] at this
    exact this
  · intro h
    refine ⟨?_, ?_, fun f s hs _ => h.insert_served hs⟩
    · intro f hf s hs
      obtain ⟨p, hp⟩ := Maps.mem_values.1 hf
      rw [hb.keyed p f hp]
      exact h p f s hp hs
    · show (st.after (st.inner.replace st.inner.current)) = st
      rw [h.replay hb]; rfl

theorem apply_faithful_iff (hb : st.inner.Bound) (hf : st.inner.Faithful) (op : ForwardOp) :
    (op.apply st).inner.Faithful ↔ op.ServesListed st := by
  have hreplace : ∀ forwards, (st.inner.replace forwards).1.Faithful ↔ st.inner.Serves forwards := fun forwards =>
    ForwardsInner.replace_fst (t := st.inner) forwards ▸ hb.replaced_faithful_iff hf forwards
  cases op with
  | replace forwards => exact hreplace forwards
  | replaceIfUnchanged forwards expected =>
    show (st.replaceIfUnchanged forwards expected).1.inner.Faithful ↔ (_ → _)
    unfold replaceIfUnchanged
    split
    · next hacc => exact (hreplace forwards).trans ⟨fun h _ => h, fun h => h hacc⟩
    · next hacc => exact ⟨fun _ h => absurd h hacc, fun _ => hf⟩
  | insert forward => exact hb.insert_faithful_iff hf forward
  | remove port => exact ⟨fun _ => trivial, fun _ => hf.remove port⟩
  | bindSlot slot port =>
    refine ⟨fun _ => trivial, fun _ => ?_⟩
    show (st.bindSlot slot port).1.inner.Faithful
    unfold bindSlot
    split
    · next r hr => exact hf.bindSlot hr
    · exact hf

end ForwardsState

/-- `current` is faithful after every operation of a run exactly if each operation of it lists no slot for a
port that the slot does not end up serving. -/
theorem current_faithful (known : List Slot) (ops : List ForwardOp) :
    (∀ done, done <+: ops → ((ForwardsState.withSlots known).run done).ListsBindings) ↔
      ∀ done op, done ++ [op] <+: ops → op.ServesListed ((ForwardsState.withSlots known).run done) := by
  have hbound : ∀ done, ((ForwardsState.withSlots known).run done).inner.Bound :=
    ForwardsState.run_bound ForwardsState.withSlots_bound
  have hlast : ∀ done op, (ForwardsState.withSlots known).run (done ++ [op]) =
      op.apply ((ForwardsState.withSlots known).run done) := fun done op => by
    rw [ForwardsState.run, List.foldl_append]; rfl
  simp only [ForwardsState.listsBindings_iff (hbound _)]
  constructor
  · intro h done op hpre
    have hdone := h done ((List.prefix_append done [op]).trans hpre)
    rw [← ForwardsState.apply_faithful_iff (hbound done) hdone, ← hlast]
    exact h _ hpre
  · intro h done hpre
    induction done using List.reverseRecOn with
    | nil => intro p f s hf; simp [ForwardsState.run, ForwardsState.withSlots] at hf
    | append_singleton done op ih =>
      rw [hlast, ForwardsState.apply_faithful_iff (hbound done) (ih ((List.prefix_append done [op]).trans hpre))]
      exact h done op hpre

/-- An insert takes the slot of another forward, which stays listed with it. -/
theorem insert_steals_slot : ¬ ∀ (known : List Slot) (ops : List ForwardOp),
    ((ForwardsState.withSlots known).run ops).ListsBindings := by
  intro h
  have hlisted := (h proxySlots [.insert ⟨3000, .priv, none, none, some 8444⟩,
    .insert ⟨4000, .priv, none, none, some 8444⟩]).listed ⟨3000, .priv, none, none, some 8444⟩
    (by decide) 8444 rfl
  have hport : ((ForwardsState.withSlots proxySlots).run [.insert ⟨3000, .priv, none, none, some 8444⟩,
    .insert ⟨4000, .priv, none, none, some 8444⟩]).inner.slotPort 8444 = some 4000 := by decide +kernel
  cases hport.symm.trans hlisted.1

end Zedspaces.Supervisor
