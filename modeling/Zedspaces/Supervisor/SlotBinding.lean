/-
Binding a slot on a token's behalf. `bind_slot` touches the one slot and the one forward it is asked for, and
nothing at all when it refuses. Since it refuses a slot that serves another listed port and a port that another
slot serves, browsers that bootstrap with whatever tokens in whatever order bind free slots to unbound ports and
move no binding (`bindSlot_moves_nothing`).
-/
import Zedspaces.Supervisor.SingleUse

namespace Zedspaces.Supervisor

open Std Lib Lib.System

variable {c : Crates} {cfg : ProxyConfig} {b b' : Boot} {e : BootEvent} {st : ForwardsState} {slot s : Slot}
  {port p : Port}

/-! ## One call -/

namespace ForwardsState

theorem bindSlot_error {err : SlotError} (h : (st.bindSlot slot port).2 = .error err) :
    (st.bindSlot slot port).1 = st := by
  unfold bindSlot at h ⊢
  split
  · next r hr => rw [hr] at h; cases h
  · rfl

/-- What a call that is not refused leaves: the table as it was, or the slot and the forward bound. -/
theorem bindSlot_table (st : ForwardsState) (slot : Slot) (port : Port) : (st.bindSlot slot port).1 = st ∨
    (∀ s, st.inner.slots[s]? = some port → s = slot) ∧
      (st.bindSlot slot port).1.inner.slots = st.inner.slots.insert slot port ∧
      (st.bindSlot slot port).1.inner.forwards = st.inner.forwards.modify port (Forward.bind slot) := by
  unfold bindSlot
  cases hr : st.inner.bindSlot slot port with
  | error err => exact .inl rfl
  | ok r =>
    rcases ForwardsInner.bindSlot_eq_ok hr with rfl | ⟨-, -, -, honly, rfl⟩
    · exact .inl rfl
    · exact .inr ⟨honly, rfl, rfl⟩

theorem bindSlot_slots (hne : s ≠ slot) : (st.bindSlot slot port).1.inner.slotPort s = st.inner.slotPort s := by
  rcases bindSlot_table st slot port with h | ⟨-, h, -⟩
  · rw [h]
  · rw [ForwardsInner.slotPort, h, Maps.getElem?_insert, if_neg (Ne.symm hne)]; rfl

theorem bindSlot_forwards (hne : p ≠ port) :
    (st.bindSlot slot port).1.inner.forwards[p]? = st.inner.forwards[p]? := by
  rcases bindSlot_table st slot port with h | ⟨-, -, h⟩
  · rw [h]
  · rw [h, Maps.getElem?_modify, if_neg (Ne.symm hne)]

theorem bindSlot_ok (h : (st.bindSlot slot port).2 = .ok ()) :
    (st.bindSlot slot port).1.inner.slotPort slot = some port := by
  unfold bindSlot at h ⊢
  cases hr : st.inner.bindSlot slot port with
  | error err => rw [hr] at h; cases h
  | ok r =>
    show r.1.slots[slot]? = some port
    unfold ForwardsInner.bindSlot at hr
    split at hr
    · cases hr
    · split at hr
      · cases hr
      · split at hr
        · next hbound => cases hr; exact hbound
        · split at hr
          · cases hr
          · split at hr
            · cases hr
            · cases hr
              rw [Maps.getElem?_insert, if_pos rfl]

end ForwardsState

/-! ## Bootstraps -/

/-- `t` has the bindings of `st`, and perhaps more. -/
def ForwardsState.KeepsBindings (st t : ForwardsState) : Prop :=
  ∀ (s : Slot) (p : Port), st.inner.slotPort s = some p → t.inner.slotPort s = some p

theorem ForwardsState.KeepsBindings.trans {t u : ForwardsState} (h : st.KeepsBindings t) (h' : t.KeepsBindings u) :
    st.KeepsBindings u := fun s p hs => h' s p (h s p hs)

/-- A bootstrap on a slot leaves the table alone or binds the slot, when it is free. -/
theorem bindSession_table (cfg : ProxyConfig) (req : Request) (session : PortSession) (st : ForwardsState) :
    (bindSession cfg req session st).1 = st ∨
      st.inner.slotPort cfg.slot = none ∧ (bindSession cfg req session st).1 = (st.bindSlot cfg.slot session.port).1 := by
  unfold bindSession
  split
  · exact .inl rfl
  · next hfree =>
    refine .inr ⟨hfree, ?_⟩
    generalize st.bindSlot cfg.slot session.port = r
    obtain ⟨t, result⟩ := r
    rcases result with (_ | _ | _ | _) | _ <;> rfl

theorem bindSession_keepsBindings {req : Request} {session : PortSession} :
    st.KeepsBindings (bindSession cfg req session st).1 := by
  intro s p hs
  rcases bindSession_table cfg req session st with h | ⟨hfree, h⟩
  · rw [h]; exact hs
  · have hne : s ≠ cfg.slot := by rintro rfl; cases hfree.symm.trans hs
    rw [h, ForwardsState.bindSlot_slots hne]
    exact hs

theorem bindSession_bound {req : Request} {session : PortSession} (h : st.inner.Bound) :
    (bindSession cfg req session st).1.inner.Bound := by
  rcases bindSession_table cfg req session st with he | ⟨-, he⟩
  · rw [he]; exact h
  · rw [he]
    exact ForwardsState.apply_bound h (.bindSlot cfg.slot session.port)

/-- A bootstrap leaves the table alone or is a `bindSession` on it. -/
theorem bootstrapMint_forwards (cfg : ProxyConfig) (req : Request) (now : Nat) (jti : String) (session : PortSession)
    (shared : ProxyState) :
    (bootstrapMint cfg req now jti session shared).1.forwards = shared.forwards ∨
      (bootstrapMint cfg req now jti session shared).1.forwards = (bindSession cfg req session shared.forwards).1 := by
  unfold bootstrapMint
  generalize shared.sessions.redeem session.jti session.exp now = redeemed
  rcases redeemed with ⟨sessions, _ | _⟩
  · exact .inl rfl
  · right
    generalize bindSession cfg req session shared.forwards = r
    rcases r with ⟨t, _ | _⟩ <;> rfl

/-- The boot's table is one that the operations reach, and has the bindings of `st`. -/
def Boot.Serves (st : ForwardsState) (b : Boot) : Prop :=
  b.state.forwards.inner.Bound ∧ st.KeepsBindings b.state.forwards

/-- A request of a browser: not a change of the forward list by the control plane or the port scan. -/
def ByBrowser (_ : Boot) : BootEvent → Prop
  | .table _ => False
  | _ => True

instance : ∀ e : BootEvent, Decidable (ByBrowser b e)
  | .table _ => inferInstanceAs (Decidable False)
  | .advance _ | .verify _ _ _ _ | .redeem _ _ | .logout _ _ _ | .request _ _ _ => inferInstanceAs (Decidable True)

theorem Boot.Serves.step (h : b.Serves st) (hg : ByBrowser b e) (hstep : b.step c cfg e = some b') :
    b'.Serves st := by
  cases e with
  | redeem id jti =>
    obtain ⟨pending, -, rfl⟩ := Option.map_eq_some_iff.1 hstep
    show (bootstrapMint _ _ _ _ _ _).1.forwards.inner.Bound ∧ st.KeepsBindings (bootstrapMint _ _ _ _ _ _).1.forwards
    rcases bootstrapMint_forwards (cfg.on pending.slot) pending.req pending.now jti pending.session b.state with he | he
    · rw [he]; exact h
    · rw [he]
      exact ⟨bindSession_bound h.1, h.2.trans bindSession_keepsBindings⟩
  | verify host id slot req =>
    simp only [Boot.step] at hstep
    split at hstep
    · cases hstep
    · cases hstep
      unfold Boot.verify
      split <;> exact h
  | logout host slot req =>
    cases hstep
    unfold Boot.Serves
    rw [forwards_logout]
    exact h
  | advance seconds => cases hstep; exact h
  | request host slot req => cases hstep; exact h
  | table op => exact hg.elim

/-! ## Every table -/

/-- What a call for a slot and a port may do to the table. -/
structure ForwardsState.BindsOnly (slot : Slot) (port : Port) (st t : ForwardsState) (result : Except SlotError Unit) :
    Prop where
  slots : ∀ s, s ≠ slot → t.inner.slotPort s = st.inner.slotPort s
  forwards : ∀ p : Port, p ≠ port → t.inner.forwards[p]? = st.inner.forwards[p]?
  refused : ∀ err, result = .error err → t = st
  bound : result = .ok () → t.inner.slotPort slot = some port

/-- In every table the operations reach, a call binds the slot to the port or changes nothing; and after whatever
requests of browsers every bound slot has its port still, and the port no other slot. -/
theorem bindSlot_moves_nothing (known : List Slot) (ops : List ForwardOp) (slot : Slot) (port : Port) :
    let st := (ForwardsState.withSlots known).run ops
    st.BindsOnly slot port (st.bindSlot slot port).1 (st.bindSlot slot port).2 ∧
      ∀ (c : Crates) (cfg : ProxyConfig) (b b' : Boot), b.state.forwards = st → (boot c cfg).Run ByBrowser b b' →
        ∀ (s : Slot) (p : Port), st.inner.slotPort s = some p → b'.state.forwards.inner.slotPort s = some p ∧
          ∀ s', b'.state.forwards.inner.slotPort s' = some p → s' = s := by
  intro st
  refine ⟨⟨fun s => ForwardsState.bindSlot_slots, fun p => ForwardsState.bindSlot_forwards,
    fun err => ForwardsState.bindSlot_error, ForwardsState.bindSlot_ok⟩, ?_⟩
  intro c cfg b b' hb hrun s p hs
  have hserves : b'.Serves st := by
    refine hrun.invariant (fun _ _ _ hi hg hstep => hi.step hg hstep) ⟨?_, ?_⟩
    · rw [hb]
      exact ForwardsState.run_bound ForwardsState.withSlots_bound ops
    · rw [hb]
      exact fun _ _ hs => hs
  have hslot := hserves.2 s p hs
  exact ⟨hslot, fun s' hs' => hserves.1.injective s' s p hs' hslot⟩

/-- A token for port 3000, which slot 8444 serves, is presented on slot 8445. -/
theorem bindSlot_moves_nothing_sample :
    ∃ b : Boot, b.redemptions.length = 1 ∧ b.state.forwards.inner.slotPort 8444 = some 3000 ∧
      b.state.forwards.inner.slotPort 8445 ≠ some 3000 := by
  let b : Boot := ⟨50, sampleState, [], [], [], []⟩
  let pending : Bootstrap := ⟨1, 8445, sampleBootstrap sampleToken, sign sampleCrates sampleConfig.bootstrap sampleToken,
    sampleToken, 50⟩
  let verified : Boot := { b with bootstraps := [pending] }
  have hverified : (boot sampleCrates sampleConfig).Run ByBrowser b verified :=
    Run.step (e := BootEvent.verify sampleHost 1 8445 (sampleBootstrap sampleToken)) .refl trivial
      (step_sampleToken rfl (by decide))
  have hredeemed : (boot sampleCrates sampleConfig).Run ByBrowser b (verified.redeem sampleConfig pending "c") :=
    hverified.step (e := BootEvent.redeem 1 "c") trivial rfl
  obtain ⟨hslot, honly⟩ := (bindSlot_moves_nothing proxySlots [.insert sampleForward, .bindSlot 8444 3000] 8445 3000).2
    sampleCrates sampleConfig b _ rfl hredeemed 8444 3000 (by decide)
  exact ⟨_, rfl, hslot, fun h => absurd (honly 8445 h) (by decide)⟩

end Zedspaces.Supervisor
