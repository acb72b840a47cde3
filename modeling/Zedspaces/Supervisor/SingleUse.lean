/-
Bootstrap tokens and the cookies minted for them. A taken token's record is pruned by the first redemption whose
clock reading has reached the token's expiry. A request that verified the token just before that moment and
redeems it just after finds no record and mints a second cookie (`token_redeemed_twice`). As long as no such
redemption comes between, a token leads to one cookie at most (`single_cookie`).
-/
import Zedspaces.Supervisor.PortSessions

namespace Zedspaces.Supervisor

open Std Lib Lib.System

variable {c : Crates} {cfg : ProxyConfig} {s s' : Boot} {e : BootEvent}

/-- A token that was taken before is presented again only while no redemption since has had a clock reading at or
past its expiry. -/
def KeepsRecord (s : Boot) : BootEvent → Prop
  | .redeem id _ => match s.bootstraps.find? (·.id = id) with
    | some b => s.redemptions.Pairwise fun later earlier =>
        earlier.accepted = true → earlier.token = b.token → later.now < b.session.exp
    | none => True
  | _ => True

instance (s : Boot) (e : BootEvent) : Decidable (KeepsRecord s e) := by
  unfold KeepsRecord
  split
  · split <;> infer_instance
  · infer_instance

/-- What the session table knows of the tokens. -/
structure Boot.Recorded (c : Crates) (cfg : ProxyConfig) (s : Boot) : Prop where
  pending : ∀ b ∈ s.bootstraps, SignedWith c cfg.bootstrap b.token b.session ∧ b.now < b.session.exp
  signed : ∀ r ∈ s.redemptions, SignedWith c cfg.bootstrap r.token r.session
  /-- A taken token is recorded until a redemption reads its expiry. -/
  record : ∀ newer r older, s.redemptions = newer ++ r :: older → r.accepted = true →
    (∀ q ∈ newer, q.now < r.session.exp) → s.state.sessions.redeemed[r.session.jti]? = some r.session.exp
  taken : ∀ m ∈ s.minted, ∃ r ∈ s.redemptions, r.accepted = true ∧ r.token = m.1

theorem Boot.Recorded.verify (h : s.Recorded c cfg) (host : Host) (id : RequestId) (slot : Slot) (req : Request) :
    (s.verify c cfg host id slot req).Recorded c cfg := by
  unfold Boot.verify
  split
  · next session token hverify htoken =>
    refine ⟨fun b hb => ?_, h.signed, h.record, h.taken⟩
    rcases List.mem_cons.1 hb with rfl | hb
    · obtain ⟨token', htoken', hverified⟩ := bootstrapVerify_ok hverify
      cases htoken.symm.trans htoken'
      exact ⟨hverified.signed, hverified.unexpired⟩
    · exact h.pending b hb
  · exact h

theorem Boot.Recorded.redeem (h : s.Recorded c cfg) {b : Bootstrap} (hb : b ∈ s.bootstraps) (jti : String) :
    (s.redeem cfg b jti).Recorded c cfg := by
  obtain ⟨hsigned, hexp⟩ := h.pending b hb
  refine ⟨fun b' hb' => h.pending b' (List.mem_of_mem_filter hb'), ?_, ?_, ?_⟩
  · intro r hr
    rcases List.mem_cons.1 hr with rfl | hr
    · exact hsigned
    · exact h.signed r hr
  · intro newer r older heq haccepted hnewer
    show (bootstrapMint (cfg.on b.slot) b.req b.now jti b.session s.state).1.sessions.redeemed[r.session.jti]? = _
    rw [bootstrapMint_sessions, redeemed_redeem]
    rcases List.cons_eq_append_iff.1 heq with ⟨rfl, hr⟩ | ⟨newer', rfl, hold⟩
    · obtain ⟨rfl, -⟩ := List.cons_eq_cons.1 hr
      exact if_pos ⟨rfl, haccepted⟩
    · -- an older token's record is in force at this reading, so it stays and is not taken over
      obtain ⟨hnow, hnewer⟩ := List.forall_mem_cons.1 hnewer
      have hrecord := h.record newer' r older hold haccepted hnewer
      have hfilter : s.state.sessions.redeemed[r.session.jti]?.filter (b.now < ·) = some r.session.exp := by
        rw [hrecord]
        exact Option.filter_eq_some_iff.2 ⟨rfl, decide_eq_true hnow⟩
      rw [if_neg, hfilter]
      rintro ⟨hjti, htaken⟩
      rw [redeem_taken, ← hjti, hfilter] at htaken
      cases htaken
  · intro m hm
    have hold : ∀ m ∈ s.minted, ∃ r ∈ (s.redeem cfg b jti).redemptions, r.accepted = true ∧ r.token = m.1 := by
      intro m hm
      obtain ⟨r, hr, hm⟩ := h.taken m hm
      exact ⟨r, List.mem_cons_of_mem _ hr, hm⟩
    unfold Boot.redeem at hm
    dsimp only at hm
    split at hm
    · next cookie hmint =>
      rcases List.mem_cons.1 hm with rfl | hm
      · exact ⟨_, List.mem_cons_self .., (bootstrapMint_ok hmint).1, rfl⟩
      · exact hold m hm
    · exact hold m hm

theorem Boot.Recorded.step (h : s.Recorded c cfg) (hstep : s.step c cfg e = some s') : s'.Recorded c cfg := by
  cases e with
  | advance seconds => cases hstep; exact ⟨h.pending, h.signed, h.record, h.taken⟩
  | verify host id slot req =>
    simp only [Boot.step] at hstep
    split at hstep
    · cases hstep
    · cases hstep; exact h.verify ..
  | redeem id jti =>
    obtain ⟨b, hb, rfl⟩ := Option.map_eq_some_iff.1 hstep
    exact h.redeem (List.mem_of_find?_eq_some hb) jti
  | logout host slot req =>
    cases hstep
    have hredeemed : (s.logout c cfg host slot req).state.sessions.redeemed = s.state.sessions.redeemed := by
      show (logoutRoute c host (cfg.on slot) req s.clock s.state).1.sessions.redeemed = _
      unfold logoutRoute
      dsimp only
      repeat' split
      all_goals rfl
    exact ⟨h.pending, h.signed, hredeemed ▸ h.record, h.taken⟩
  | request host slot req => cases hstep; exact h
  | table op => cases hstep; exact ⟨h.pending, h.signed, h.record, h.taken⟩

theorem recorded_of_reach {G : Boot → BootEvent → Prop} (h : (boot c cfg).Reach G s) : s.Recorded c cfg := by
  refine h.invariant (fun s hs => ?_) fun _ _ _ _ hi _ hstep => hi.step hstep
  obtain ⟨-, hb, hr, hm, -⟩ := hs
  refine ⟨by rw [hb]; rintro _ ⟨⟩, by rw [hr]; rintro _ ⟨⟩, ?_, by rw [hm]; rintro _ ⟨⟩⟩
  intro newer r older heq
  rw [hr] at heq
  exact absurd heq.symm (by simp)

/-- A token whose record is kept is not taken twice. -/
theorem Boot.Recorded.fresh (h : s.Recorded c cfg) {b : Bootstrap} (hb : b ∈ s.bootstraps)
    (hkept : s.redemptions.Pairwise fun later earlier =>
      earlier.accepted = true → earlier.token = b.token → later.now < b.session.exp)
    (htaken : (s.state.sessions.redeem b.session.jti b.session.exp b.now).2 = true) :
    b.token ∉ s.minted.map Prod.fst := by
  intro hmem
  obtain ⟨m, hm, hmtoken⟩ := List.mem_map.1 hmem
  obtain ⟨r, hr, haccepted, hrtoken⟩ := h.taken m hm
  obtain ⟨hsigned, hexp⟩ := h.pending b hb
  have htoken : r.token = b.token := hrtoken.trans hmtoken
  have hsession : r.session = b.session := (h.signed r hr).unique (htoken ▸ hsigned)
  obtain ⟨newer, older, heq⟩ := List.append_of_mem hr
  rw [heq, List.pairwise_append] at hkept
  have hnewer : ∀ q ∈ newer, q.now < r.session.exp := fun q hq => by
    rw [hsession]
    exact hkept.2.2 q hq r (List.mem_cons_self ..) haccepted htoken
  have hrecord := h.record newer r older heq haccepted hnewer
  rw [hsession] at hrecord
  rw [redeem_taken, hrecord] at htaken
  exact absurd hexp (by simpa using htaken)

/-- No bootstrap token leads to two cookies in a run whose redemptions all find the record of a token taken
before. -/
theorem single_cookie (c : Crates) (cfg : ProxyConfig) (s : Boot) (h : (boot c cfg).Reach KeepsRecord s) :
    (s.minted.map Prod.fst).Nodup := by
  refine h.invariant (I := fun s => (s.minted.map Prod.fst).Nodup)
    (fun s hs => by rw [hs.2.2.2.1]; exact List.nodup_nil) ?_
  intro t e u ht hi hg hstep
  cases e with
  | redeem id jti =>
    obtain ⟨b, hb, rfl⟩ := Option.map_eq_some_iff.1 hstep
    have hmem := List.mem_of_find?_eq_some hb
    simp only [KeepsRecord, hb] at hg
    unfold Boot.redeem
    dsimp only
    split
    · next cookie hmint =>
      exact List.nodup_cons.2 ⟨(recorded_of_reach ht).fresh hmem hg (bootstrapMint_ok hmint).1, hi⟩
    · exact hi
  | verify host id slot req =>
    simp only [boot, Boot.step] at hstep
    split at hstep
    · cases hstep
    · cases hstep
      unfold Boot.verify
      split <;> exact hi
  | advance seconds => cases hstep; exact hi
  | logout host slot req => cases hstep; exact hi
  | request host slot req => cases hstep; exact hi
  | table op => cases hstep; exact hi

/-! ## Runs -/

/-- The request of a browser that was redirected to the slot with the token. -/
def sampleBootstrap (session : PortSession) : Request :=
  ⟨"GET", authPath, some (bootstrapParam ++ '=' :: sign sampleCrates sampleConfig.bootstrap session), []⟩

/-- A boot at the given time whose port 3000 is forwarded privately. -/
def sampleBoot (clock : Nat) : Boot :=
  ⟨clock, ⟨(ForwardsState.withSlots proxySlots).insert sampleForward, .empty⟩, [], [], [], []⟩

theorem token_sampleBootstrap (session : PortSession) :
    (sampleBootstrap session).token = some (sign sampleCrates sampleConfig.bootstrap session) :=
  queryParam_sign _ _ session [] (List.splitOn_eq_singleton (notMem_sign _ _ session))

theorem signedSession_sampleToken :
    signedSession sampleCrates sampleConfig.bootstrap (sign sampleCrates sampleConfig.bootstrap sampleToken) =
      .ok sampleToken :=
  signedSession_sign (by decide) (by decide)

theorem signedSession_sampleLaterToken :
    signedSession sampleCrates sampleConfig.bootstrap (sign sampleCrates sampleConfig.bootstrap sampleLaterToken) =
      .ok sampleLaterToken :=
  signedSession_sign (by decide) (by decide)

/-- The boot takes up the sample token within its time. -/
theorem step_sampleToken {s : Boot} {id : RequestId} {slot : Slot} (hnew : s.bootstraps.any (·.id = id) = false)
    (hclock : s.clock < 100) :
    (boot sampleCrates sampleConfig).step s (.verify sampleHost id slot (sampleBootstrap sampleToken)) =
      some { s with bootstraps := ⟨id, slot, sampleBootstrap sampleToken,
        sign sampleCrates sampleConfig.bootstrap sampleToken, sampleToken, s.clock⟩ :: s.bootstraps } :=
  step_verify hnew rfl (token_sampleBootstrap sampleToken) ((verify_of_signed signedSession_sampleToken).1
    ⟨hclock, by decide, by decide, rfl, by decide, rfl⟩)

theorem step_sampleLaterToken {s : Boot} {id : RequestId} {slot : Slot} (hnew : s.bootstraps.any (·.id = id) = false)
    (hclock : s.clock < 160) :
    (boot sampleCrates sampleConfig).step s (.verify sampleHost id slot (sampleBootstrap sampleLaterToken)) =
      some { s with bootstraps := ⟨id, slot, sampleBootstrap sampleLaterToken,
        sign sampleCrates sampleConfig.bootstrap sampleLaterToken, sampleLaterToken, s.clock⟩ :: s.bootstraps } :=
  step_verify hnew rfl (token_sampleBootstrap sampleLaterToken) ((verify_of_signed signedSession_sampleLaterToken).1
    ⟨hclock, by decide, by decide, rfl, by decide, rfl⟩)

/-- Two requests with one token verify it before either redeems it: the second is refused. -/
theorem single_cookie_replayed : ∃ s : Boot, s.redemptions.length = 2 ∧ s.minted ≠ [] ∧
    (s.minted.map Prod.fst).Nodup := by
  have hinit : (boot sampleCrates sampleConfig).Reach KeepsRecord (sampleBoot 50) := .init ⟨rfl, rfl, rfl, rfl, rfl⟩
  have hverified := hinit.step (e := BootEvent.verify sampleHost 1 8444 (sampleBootstrap sampleToken)) trivial
    (step_sampleToken rfl (by decide))
  have hboth := hverified.step (e := BootEvent.verify sampleHost 2 8444 (sampleBootstrap sampleToken)) trivial
    (step_sampleToken rfl (by decide))
  have hfirst := hboth.step (e := BootEvent.redeem 2 "c") (by decide) rfl
  have hsecond := hfirst.step (e := BootEvent.redeem 1 "d") (by decide) rfl
  exact ⟨_, rfl, List.isEmpty_eq_false_iff.1 (by decide +kernel), single_cookie _ _ _ hsecond⟩

/-- A request that verified the token in its last second redeems it after another one has pruned its record. -/
theorem token_redeemed_twice : ¬ ∀ (c : Crates) (cfg : ProxyConfig) (s : Boot), (boot c cfg).Reach free s →
    (s.minted.map Prod.fst).Nodup := by
  intro h
  let token := sign sampleCrates sampleConfig.bootstrap sampleToken
  let laterToken := sign sampleCrates sampleConfig.bootstrap sampleLaterToken
  let b₁ : Bootstrap := ⟨1, 8444, sampleBootstrap sampleToken, token, sampleToken, 50⟩
  let b₂ : Bootstrap := ⟨2, 8444, sampleBootstrap sampleToken, token, sampleToken, 99⟩
  let b₃ : Bootstrap := ⟨3, 8444, sampleBootstrap sampleLaterToken, laterToken, sampleLaterToken, 100⟩
  let s₁ : Boot := { sampleBoot 50 with bootstraps := [b₁] }
  let s₂ : Boot := { s₁.redeem sampleConfig b₁ "c" with clock := 99, bootstraps := [b₂] }
  let s₃ : Boot := { s₂ with clock := 100, bootstraps := [b₃, b₂] }
  let s₄ : Boot := s₃.redeem sampleConfig b₃ "d"
  have h₁ : (boot sampleCrates sampleConfig).Reach free s₁ :=
    Reach.step (.init ⟨rfl, rfl, rfl, rfl, rfl⟩) trivial (step_sampleToken rfl (by decide))
  have h₂ : (boot sampleCrates sampleConfig).Reach free s₂ :=
    ((h₁.step (e := BootEvent.redeem 1 "c") trivial rfl).step (e := BootEvent.advance 49) trivial rfl).step trivial
      (step_sampleToken rfl (by decide))
  have h₃ : (boot sampleCrates sampleConfig).Reach free s₃ :=
    (h₂.step (e := BootEvent.advance 1) trivial rfl).step trivial (step_sampleLaterToken rfl (by decide))
  have h₄ : (boot sampleCrates sampleConfig).Reach free s₄ := h₃.step (e := BootEvent.redeem 3 "d") trivial rfl
  have h₅ := h₄.step (e := BootEvent.redeem 2 "e") trivial rfl
  have hfirst : (s₁.redeem sampleConfig b₁ "c").minted.map Prod.fst = [token] :=
    tokens_redeem (by decide +zetaReduce)
  have hkept : s₃.minted = (s₁.redeem sampleConfig b₁ "c").minted := rfl
  have hsecond : s₄.minted.map Prod.fst = laterToken :: s₃.minted.map Prod.fst :=
    tokens_redeem (by decide +kernel +zetaReduce)
  have hthird : (s₄.redeem sampleConfig b₂ "e").minted.map Prod.fst = token :: s₄.minted.map Prod.fst :=
    tokens_redeem (by decide +kernel +zetaReduce)
  have hnodup := h sampleCrates sampleConfig _ h₅
  rw [hthird, hsecond, hkept, hfirst] at hnodup
  simp at hnodup

end Zedspaces.Supervisor
