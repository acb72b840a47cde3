/-
Logging out. The revocation of a cookie stays in the table until the cookie expires: other logouts prune only what
has expired, and no other cookie of the boot carries the same `jti`. So a cookie that has been logged out lets no
request through again, on any slot (`logged_out_for_good`). That rests on what the libraries promise: random `jti`s
do not repeat, nobody else can sign with the boot's key, and a payload is read back as it was written.
-/
import Zedspaces.Supervisor.SingleUse

namespace Zedspaces.Supervisor

open Std Lib Lib.System

variable {c : Crates} {cfg : ProxyConfig} {s s' : Boot} {e : BootEvent} {cookie : Text}

/-- The cookie that the redemption of `id` would mint. -/
def Boot.minting (cfg : ProxyConfig) (s : Boot) (id : RequestId) (jti : String) : Option PortSession :=
  (s.bootstraps.find? (·.id = id)).map fun b => cookieOf (cfg.on b.slot) b.now b.session jti

/-- `random_jti` gives a new value each time. -/
def FreshJti (s : Boot) : BootEvent → Prop
  | .redeem _ jti => ∀ m ∈ s.minted, m.2.jti ≠ jti
  | _ => True

/-- `serde_json` reads a minted payload back. -/
def ReadsBack (c : Crates) (cfg : ProxyConfig) (s : Boot) : BootEvent → Prop
  | .redeem id jti => ∀ cookie ∈ s.minting cfg id jti, c.fromSlice cookie.toVec = some cookie
  | _ => True

/-- A cookie whose signature matches under the boot's key was signed by the boot. -/
def Signed (c : Crates) (cfg : ProxyConfig) (s : Boot) (cookie : Text) : Prop :=
  match threeParts cookie with
  | some (pfx, payload, signature) =>
    Base64Url.decode signature = some (c.mac cfg.cookies (pfx ++ '.' :: payload : Text).utf8) →
      ∃ m ∈ s.minted, payload = Base64Url.encode m.2.toVec
  | none => True

/-- Nobody presents a forged cookie to the logout route. -/
def Unforged (c : Crates) (cfg : ProxyConfig) (s : Boot) : BootEvent → Prop
  | .logout _ _ req => ∀ cookie ∈ req.cookie, Signed c cfg s cookie
  | _ => True

/-- What the boot relies on of `rand`, `serde_json` and `hmac`. -/
def Relies (c : Crates) (cfg : ProxyConfig) (s : Boot) (e : BootEvent) : Prop :=
  FreshJti s e ∧ ReadsBack c cfg s e ∧ Unforged c cfg s e

instance (s : Boot) (e : BootEvent) : Decidable (Relies c cfg s e) := by
  have hsigned (cookie : Text) : Decidable (Signed c cfg s cookie) := by
    unfold Signed
    generalize threeParts cookie = parts
    rcases parts with _ | ⟨_, _, _⟩ <;> infer_instance
  unfold Relies FreshJti ReadsBack Unforged
  rcases e with _ | _ <;> infer_instance

/-! ## What the boot knows of its cookies -/

/-- The minted cookies differ in their `jti`, and each one logged out is revoked until it expires. -/
structure Boot.Revokes (c : Crates) (cfg : ProxyConfig) (s : Boot) : Prop where
  jtis : (s.minted.map fun m => m.2.jti).Nodup
  readsBack : ∀ m ∈ s.minted, c.fromSlice m.2.toVec = some m.2
  revoked : ∀ cookie ∈ s.loggedOut, ∃ m ∈ s.minted, SignedWith c cfg.cookies cookie m.2 ∧
    (s.state.sessions.revoked[m.2.jti]? = some m.2.exp ∨ m.2.exp ≤ s.clock)

/-- A cookie that verifies is one of the minted. -/
theorem Boot.Revokes.minted (h : s.Revokes c cfg) {session : PortSession} (hunforged : Signed c cfg s cookie)
    (hsigned : SignedWith c cfg.cookies cookie session) : ∃ m ∈ s.minted, m.2 = session := by
  obtain ⟨payload, signature, rfl, hdot, hmac, hsession⟩ := hsigned
  have hparts : threeParts (signingInput payload ++ '.' :: signature) = some (tokenPrefix, payload, signature) :=
    threeParts_eq_some.2 ⟨rfl, by decide, hdot⟩
  unfold Signed at hunforged
  rw [hparts] at hunforged
  obtain ⟨m, hm, rfl⟩ := hunforged hmac
  rw [Base64Url.decode_encode] at hsession
  exact ⟨m, hm, Option.some.inj ((h.readsBack m hm).symm.trans hsession)⟩

theorem Boot.Revokes.redeem (h : s.Revokes c cfg) {id : RequestId} {b : Bootstrap} {jti : String}
    (hb : s.bootstraps.find? (·.id = id) = some b) (hg : Relies c cfg s (.redeem id jti)) :
    (s.redeem cfg b jti).Revokes c cfg := by
  obtain ⟨hfresh, hreads, -⟩ := hg
  have hrevoked : (s.redeem cfg b jti).state.sessions.revoked = s.state.sessions.revoked := by
    show (bootstrapMint (cfg.on b.slot) b.req b.now jti b.session s.state).1.sessions.revoked = _
    rw [bootstrapMint_sessions]
    unfold SessionGuard.redeem
    dsimp only
    split <;> rfl
  cases hmint : (bootstrapMint (cfg.on b.slot) b.req b.now jti b.session s.state).2 with
  | error refused =>
    have hminted := minted_redeem_of_refused hmint
    exact ⟨hminted ▸ h.jtis, hminted ▸ h.readsBack, by rw [hminted, hrevoked]; exact h.revoked⟩
  | ok cookie =>
    obtain ⟨-, hcookie⟩ := bootstrapMint_ok hmint
    have hminted := minted_redeem hmint
    have hjti : cookie.jti = jti := by rw [hcookie]; rfl
    have hread : c.fromSlice cookie.toVec = some cookie := by
      refine hreads cookie ?_
      rw [Boot.minting, hb, hcookie]
      exact rfl
    refine ⟨?_, ?_, ?_⟩
    · rw [hminted, List.map_cons, List.nodup_cons]
      refine ⟨fun hmem => ?_, h.jtis⟩
      obtain ⟨m, hm, he⟩ := List.mem_map.1 hmem
      exact hfresh m hm (he.trans hjti)
    · rw [hminted]
      exact List.forall_mem_cons.2 ⟨hread, h.readsBack⟩
    · rw [hminted, hrevoked]
      intro out hout
      obtain ⟨m, hm, hout⟩ := h.revoked out hout
      exact ⟨m, List.mem_cons_of_mem _ hm, hout⟩

/-- What a logout does: without a verified cookie nothing, with one its `jti` is revoked. -/
theorem logoutRoute_cases {host : Host} {slot : Slot} {req : Request} :
    logoutCookie c cfg host slot req s.clock = none ∧ (s.logout c cfg host slot req).state = s.state ∨
      ∃ cookie session, req.cookie = some cookie ∧ logoutCookie c cfg host slot req s.clock = some cookie ∧
        SignedWith c cfg.cookies cookie session ∧
        (s.logout c cfg host slot req).state.sessions = s.state.sessions.revoke session.jti session.exp s.clock := by
  cases hcookie : req.cookie with
  | none =>
    refine .inl ⟨by rw [logoutCookie, hcookie]; rfl, ?_⟩
    show (logoutRoute c host (cfg.on slot) req s.clock s.state).1 = _
    rw [logoutRoute, hcookie]
  | some cookie =>
    have hout : logoutCookie c cfg host slot req s.clock = if (verify c cfg.cookies host.privatePorts cookie
        cfg.workspaceId s.clock cookieTtlSecs).isOk then some cookie else none := by
      rw [logoutCookie, hcookie]; rfl
    have hstate : (s.logout c cfg host slot req).state = (logoutRoute c host (cfg.on slot) req s.clock s.state).1 := rfl
    have hslot : (cfg.on slot).workspaceId = cfg.workspaceId ∧ (cfg.on slot).cookies = cfg.cookies := ⟨rfl, rfl⟩
    rw [logoutRoute, hcookie] at hstate
    dsimp only at hstate
    rw [hslot.1, hslot.2] at hstate
    cases hverify : verify c cfg.cookies host.privatePorts cookie cfg.workspaceId s.clock cookieTtlSecs with
    | error e =>
      rw [hverify] at hout hstate
      exact .inl ⟨hout, hstate⟩
    | ok session =>
      rw [hverify] at hout hstate
      exact .inr ⟨cookie, session, rfl, hout, (verify_eq_ok hverify).signed, by rw [hstate]⟩

theorem Boot.Revokes.logout (h : s.Revokes c cfg) {host : Host} {slot : Slot} {req : Request}
    (hg : Relies c cfg s (.logout host slot req)) : (s.logout c cfg host slot req).Revokes c cfg := by
  refine ⟨h.jtis, h.readsBack, ?_⟩
  show ∀ cookie ∈ (logoutCookie c cfg host slot req s.clock).toList ++ s.loggedOut, _
  rcases logoutRoute_cases with ⟨hnone, hstate⟩ | ⟨cookie, session, hreq, hsome, hsigned, hsessions⟩
  · rw [hnone, hstate]
    exact h.revoked
  · obtain ⟨m, hm, hmsession⟩ := h.minted (hg.2.2 cookie hreq) hsigned
    rw [hsome, hsessions]
    intro out hout
    rcases List.mem_cons.1 hout with rfl | hout
    · refine ⟨m, hm, hmsession ▸ hsigned, .inl ?_⟩
      rw [revoked_revoke, if_pos (congrArg PortSession.jti hmsession.symm), hmsession]
    · obtain ⟨m', hm', hsigned', hrevoked⟩ := h.revoked out hout
      refine ⟨m', hm', hsigned', ?_⟩
      rw [revoked_revoke]
      split
      · -- the same `jti` is the same cookie, so the record is overwritten with its own expiry
        next hjti =>
        have heq : m = m' := List.inj_on_of_nodup_map h.jtis hm hm' ((congrArg PortSession.jti hmsession).trans hjti)
        exact .inl (by rw [← heq, hmsession])
      · rcases Nat.lt_or_ge s.clock m'.2.exp with hlt | hge
        · refine .inl ?_
          rcases hrevoked with hrevoked | hle
          · rw [hrevoked]
            exact Option.filter_eq_some_iff.2 ⟨rfl, decide_eq_true hlt⟩
          · omega
        · exact .inr hge

theorem Boot.Revokes.step (h : s.Revokes c cfg) (hg : Relies c cfg s e) (hstep : s.step c cfg e = some s') :
    s'.Revokes c cfg := by
  cases e with
  | advance seconds =>
    cases hstep
    refine ⟨h.jtis, h.readsBack, fun cookie hout => ?_⟩
    obtain ⟨m, hm, hsigned, hrevoked⟩ := h.revoked cookie hout
    exact ⟨m, hm, hsigned, hrevoked.imp_right fun hle => Nat.le_add_right_of_le hle⟩
  | verify host id slot req =>
    simp only [Boot.step] at hstep
    split at hstep
    · cases hstep
    · cases hstep
      unfold Boot.verify
      split
      · exact ⟨h.jtis, h.readsBack, h.revoked⟩
      · exact h
  | redeem id jti =>
    obtain ⟨b, hb, rfl⟩ := Option.map_eq_some_iff.1 hstep
    exact h.redeem hb hg
  | logout host slot req => cases hstep; exact h.logout hg
  | request host slot req => cases hstep; exact h
  | table op => cases hstep; exact ⟨h.jtis, h.readsBack, h.revoked⟩

/-- A request with the cookie is let through only to a public port. -/
def NeedsOther (c : Crates) (cfg : ProxyConfig) (s : Boot) (cookie : Text) : Prop :=
  ∀ (host : Host) (slot : Slot) (req : Request) (p : Port), req.cookie = some cookie →
    authorize c host (cfg.on slot) req s.clock s.state = .ok p → s.state.forwards.inner.publicSlotPort slot = some p

/-- Once logged out, a cookie authorizes no request of the boot again. -/
theorem logged_out_for_good (c : Crates) (cfg : ProxyConfig) (s : Boot) (h : (boot c cfg).Reach (Relies c cfg) s) :
    ∀ cookie ∈ s.loggedOut, NeedsOther c cfg s cookie := by
  have hrevokes : s.Revokes c cfg := by
    refine h.invariant (fun s hs => ?_) fun _ _ _ _ hi hg hstep => hi.step hg hstep
    obtain ⟨-, -, -, hm, hl⟩ := hs
    exact ⟨by rw [hm]; exact List.nodup_nil, by rw [hm]; rintro _ ⟨⟩, by rw [hl]; rintro _ ⟨⟩⟩
  intro cookie hout host slot req p hcookie hauth
  rcases authorize_eq_ok hauth with hpublic | ⟨-, cookie', session, hcookie', hsession, -⟩
  · exact hpublic
  · cases hcookie.symm.trans hcookie'
    obtain ⟨m, hm, hsigned, hrevoked⟩ := hrevokes.revoked cookie hout
    obtain ⟨hverified, hnot⟩ := cookieSession_eq_some hsession
    obtain rfl : session = m.2 := SignedWith.unique hverified.signed hsigned
    exfalso
    have hunexpired := hverified.unexpired
    rcases hrevoked with hrevoked | hle
    · rw [SessionGuard.isRevoked, hrevoked] at hnot
      exact absurd hunexpired (by simpa using hnot)
    · omega

/-- A logout with a cookie of the boot presents no forged one. -/
theorem unforged_of_minted {host : Host} {slot : Slot} {req : Request} {token : Text} {session : PortSession}
    (hcookie : req.cookie = some (sign c cfg.cookies session)) (hminted : (token, session) ∈ s.minted) :
    Unforged c cfg s (.logout host slot req) := by
  have hparts : threeParts (sign c cfg.cookies session) = some (tokenPrefix, Base64Url.encode session.toVec,
      Base64Url.encode (c.mac cfg.cookies (signingInput (Base64Url.encode session.toVec)).utf8)) :=
    threeParts_eq_some.2 ⟨rfl, by decide, dot_notMem_encode _⟩
  rintro _ hpresented
  cases hcookie.symm.trans hpresented
  rw [Signed, hparts]
  exact fun _ => ⟨(token, session), hminted, rfl⟩

/-- A boot that has exchanged the sample token for the sample cookie. -/
theorem exists_sampleCookie : ∃ s : Boot, (boot sampleCrates sampleConfig).Reach (Relies sampleCrates sampleConfig) s ∧
    (∃ token, (token, sampleCookie) ∈ s.minted) ∧ s.clock = 50 ∧ s.loggedOut = [] ∧
      s.state.forwards.inner.publicSlotPort 8444 = none := by
  let b : Bootstrap := ⟨1, 8444, sampleBootstrap sampleToken, sign sampleCrates sampleConfig.bootstrap sampleToken,
    sampleToken, 50⟩
  let s : Boot := { sampleBoot 50 with bootstraps := [b] }
  have hverified : (boot sampleCrates sampleConfig).Reach (Relies sampleCrates sampleConfig) s :=
    Reach.step (e := BootEvent.verify sampleHost 1 8444 (sampleBootstrap sampleToken))
      (.init (s := sampleBoot 50) ⟨rfl, rfl, rfl, rfl, rfl⟩) ⟨trivial, trivial, trivial⟩
      (step_sampleToken rfl (by decide))
  refine ⟨s.redeem sampleConfig b "c", ?_, ?_, rfl, rfl, by decide +zetaReduce⟩
  · refine hverified.step (e := BootEvent.redeem 1 "c") ⟨?_, ?_, trivial⟩ rfl
    · rintro m ⟨⟩
    · have hminting : s.minting sampleConfig 1 "c" = some sampleCookie := by decide +zetaReduce
      intro cookie hcookie
      cases hminting.symm.trans hcookie
      exact fromSlice_sampleCookie
  · have hminted : (s.redeem sampleConfig b "c").minted = [(b.token, sampleCookie)] :=
      minted_redeem (by decide +zetaReduce)
    rw [hminted]
    exact ⟨_, List.mem_cons_self ..⟩

/-- A cookie is minted, used for a logout, and refused on its slot. -/
theorem logged_out_for_good_sample : ∃ s : Boot, s.loggedOut ≠ [] ∧ s.minted ≠ [] ∧
    ∀ p, authorize sampleCrates sampleHost (sampleConfig.on 8444) sampleRequest s.clock s.state ≠ .ok p := by
  obtain ⟨s, hr, ⟨token, hminted⟩, hclock, hnone, hprivate⟩ := exists_sampleCookie
  have hlogout := hr.step (e := BootEvent.logout sampleHost 8444 sampleRequest)
    ⟨trivial, trivial, unforged_of_minted cookie_sampleRequest hminted⟩ rfl
  obtain ⟨cookie, hcookie, hout⟩ : ∃ cookie, sampleRequest.cookie = some cookie ∧
      (s.logout sampleCrates sampleConfig sampleHost 8444 sampleRequest).loggedOut = [cookie] := by
    refine ⟨_, cookie_sampleRequest, ?_⟩
    show (logoutCookie sampleCrates sampleConfig sampleHost 8444 sampleRequest s.clock).toList ++ s.loggedOut = _
    rw [logoutCookie, cookie_sampleRequest, hclock, hnone, Option.filter_some, if_pos]
    · rfl
    · have hnow : 50 < 28850 := by decide
      exact congrArg Except.isOk (verify_sampleCookie hnow)
  refine ⟨s.logout sampleCrates sampleConfig sampleHost 8444 sampleRequest, ?_, ?_, ?_⟩
  · rw [hout]
    exact List.cons_ne_nil _ _
  · rw [minted_logout]
    exact List.ne_nil_of_mem hminted
  · intro p hauth
    have hpublic := logged_out_for_good _ _ _ hlogout cookie (hout ▸ List.mem_singleton_self _) sampleHost 8444
      sampleRequest p hcookie hauth
    rw [forwards_logout, hprivate] at hpublic
    cases hpublic

end Zedspaces.Supervisor
