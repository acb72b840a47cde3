/-
Who gets through to a port. A request is proxied only to the port its slot is bound to, never to one of the
supervisor's own, and only when that port's forward is public or the request carries a cookie of this boot for
this workspace and port that has neither expired nor been revoked (`proxied_authorized`).
-/
import Zedspaces.Supervisor.Proxy
import Zedspaces.Supervisor.ForwardTable

namespace Zedspaces.Supervisor

open Std Lib

variable {c : Crates} {host : Host} {cfg : ProxyConfig} {req : Request} {now : Nat} {st : ProxyState} {p : Port}
  {session : PortSession} {sessions : SessionGuard} {cookie : Text}

theorem cookieSession_eq_some (h : cookieSession c host cfg now sessions cookie = some session) :
    Verified c cfg.cookies host.privatePorts cookie cfg.workspaceId now cookieTtlSecs session ∧
      sessions.isRevoked session.jti now = false := by
  unfold cookieSession at h
  split at h
  · cases h
  · next session' hverify =>
    split at h
    · cases h
    · next hrevoked =>
      cases h
      exact ⟨verify_eq_ok hverify, Bool.eq_false_iff.2 hrevoked⟩

/-- A request is authorized as one for a public forward, or by its cookie. -/
theorem authorize_eq_ok (h : authorize c host cfg req now st = .ok p) :
    st.forwards.inner.publicSlotPort cfg.slot = some p ∨
      st.forwards.inner.slotPort cfg.slot = some p ∧ ∃ cookie session, req.cookie = some cookie ∧
        cookieSession c host cfg now st.sessions cookie = some session ∧ session.port = p := by
  unfold authorize at h
  split at h
  · next port hpublic =>
    split at h
    · cases h
    · cases h; exact .inl hpublic
  · split at h
    · cases h
    · next session hcookie =>
      obtain ⟨cookie, hc, hs⟩ := Option.bind_eq_some_iff.1 hcookie
      split at h
      · cases h
      · next bound hslot =>
        split at h
        · cases h
        · next hport =>
          cases h
          rw [ne_eq, not_not] at hport
          exact .inr ⟨hslot, cookie, session, hc, hs, hport.symm⟩

theorem forward_eq_proxy (h : forward c host cfg req now st = .proxy p) :
    authorize c host cfg req now st = .ok p ∧ isInfraPort host.privatePorts p = false := by
  unfold forward at h
  split at h
  · cases h
  · next target hauth =>
    split at h
    · cases h
    · next hinfra =>
      split at h
      · cases h
      · cases h
        exact ⟨hauth, Bool.eq_false_iff.2 hinfra⟩

theorem handle_eq_proxy {busy : Bool} {jti : String} (h : (handle c host cfg req now busy jti st).2 = .proxy p) :
    forward c host cfg req now st = .proxy p := by
  unfold handle at h
  split at h
  · cases h
  · split at h
    · cases h
    · split at h
      · cases h
      · exact h

theorem bootstrapVerify_of_error {token : Text} {e : AuthError} (hmethod : req.method = "GET")
    (htoken : queryParam (req.query.getD []) bootstrapParam = some token)
    (hverify : verify c cfg.bootstrap host.privatePorts token cfg.workspaceId now bootstrapMaxAgeSecs = .error e) :
    bootstrapVerify c host cfg req now = .error (authFailure cfg req 401 (authErrorCode e)) := by
  rw [bootstrapVerify, if_neg (not_not.2 hmethod), htoken]
  dsimp only
  rw [hverify]

theorem bootstrapVerify_of_ok {token : Text} (hmethod : req.method = "GET")
    (htoken : queryParam (req.query.getD []) bootstrapParam = some token)
    (hverify : verify c cfg.bootstrap host.privatePorts token cfg.workspaceId now bootstrapMaxAgeSecs = .ok session) :
    bootstrapVerify c host cfg req now = .ok session := by
  rw [bootstrapVerify, if_neg (not_not.2 hmethod), htoken]
  dsimp only
  rw [hverify]

/-- A bootstrap request that is refused leaves everything as it was. -/
theorem handle_of_refused {jti : String} {refused : Response} (hpath : req.path = authPath)
    (hverify : bootstrapVerify c host cfg req now = .error refused) :
    handle c host cfg req now false jti st = (st, .respond refused) := by
  rw [handle, if_neg Bool.false_ne_true, if_pos hpath, bootstrapRoute, hverify]

/-- The request's cookie lets it through to the port. -/
def Admits (c : Crates) (cfg : ProxyConfig) (now : Nat) (st : ProxyState) (req : Request) (p : Port) : Prop :=
  ∃ cookie session, req.cookie = some cookie ∧ SignedWith c cfg.cookies cookie session ∧ now < session.exp ∧
    st.sessions.isRevoked session.jti now = false ∧ session.ws = cfg.workspaceId ∧ session.port = p

/-- A request on a slot, whatever the table and the sessions are, is proxied only as its slot, the forward's
visibility and its cookie allow. -/
theorem proxied_authorized (c : Crates) (host : Host) (cfg : ProxyConfig) (req : Request) (now : Nat) (busy : Bool)
    (jti : String) (st : ProxyState) (p : Port) (h : (handle c host cfg req now busy jti st).2 = .proxy p) :
    st.forwards.inner.slotPort cfg.slot = some p ∧ isInfraPort host.privatePorts p = false ∧
      ((∃ f, st.forwards.inner.forwards[p]? = some f ∧ f.visibility = .pub) ∨ Admits c cfg now st req p) := by
  obtain ⟨hauth, hinfra⟩ := forward_eq_proxy (handle_eq_proxy h)
  rcases authorize_eq_ok hauth with hpublic | ⟨hslot, cookie, session, hcookie, hsession, hport⟩
  · obtain ⟨hslot, hforward⟩ := ForwardsInner.publicSlotPort_eq_some.1 hpublic
    exact ⟨hslot, hinfra, .inl hforward⟩
  · obtain ⟨hverified, hrevoked⟩ := cookieSession_eq_some hsession
    refine ⟨hslot, hinfra, .inr ⟨cookie, session, hcookie, hverified.signed, hverified.unexpired, hrevoked,
      hverified.workspace, hport⟩⟩

/-! ## Letting a request through -/

/-- A cookie that verifies and has not been revoked gives its session. -/
theorem cookieSession_of_verify
    (hverify : verify c cfg.cookies host.privatePorts cookie cfg.workspaceId now cookieTtlSecs = .ok session)
    (hrevoked : sessions.isRevoked session.jti now = false) :
    cookieSession c host cfg now sessions cookie = some session := by
  rw [cookieSession, hverify]
  exact if_neg (Bool.eq_false_iff.1 hrevoked)

/-- On a private slot the cookie of its port authorizes. -/
theorem authorize_of_cookie (hprivate : st.forwards.inner.publicSlotPort cfg.slot = none)
    (hcookie : req.cookie = some cookie) (hsession : cookieSession c host cfg now st.sessions cookie = some session)
    (hslot : st.forwards.inner.slotPort cfg.slot = some session.port) :
    authorize c host cfg req now st = .ok session.port := by
  have hbind : req.cookie.bind (cookieSession c host cfg now st.sessions) = some session := by
    rw [hcookie]
    exact hsession
  rw [authorize, hprivate]
  dsimp only
  rw [hbind]
  dsimp only
  rw [hslot]
  exact if_neg (not_not.2 rfl)

/-- An authorized request is proxied, unless it is one of the routes or the port is the supervisor's. -/
theorem handle_of_authorized {jti : String} (hroute : req.path ≠ authPath ∧ req.path ≠ logoutPath)
    (hauth : authorize c host cfg req now st = .ok p) (hinfra : isInfraPort host.privatePorts p = false)
    (hprivate : st.forwards.inner.publicSlotPort cfg.slot = none) :
    (handle c host cfg req now false jti st).2 = .proxy p := by
  rw [handle, if_neg Bool.false_ne_true, if_neg hroute.1, if_neg hroute.2]
  show forward c host cfg req now st = .proxy p
  rw [forward, hauth]
  dsimp only
  rw [if_neg (Bool.eq_false_iff.1 hinfra), if_neg]
  rintro ⟨hpublic, -⟩
  exact absurd (hprivate.symm.trans hpublic) (Option.some_ne_none p).symm

/-! ## A boot with known keys -/

/-- A bootstrap token of workspace `w`, another one, and the cookie that the first is exchanged for. -/
def sampleToken : PortSession := ⟨"w", 3000, "u", 0, 100, "t"⟩

def sampleLaterToken : PortSession := ⟨"w", 3000, "u", 60, 160, "t2"⟩

def sampleCookie : PortSession := ⟨"w", 3000, "u", 50, 28850, "c"⟩

def sampleConfig : ProxyConfig := ⟨8444, Vector.replicate 32 7, Vector.replicate 32 9, "w", true⟩

/-- HMAC-SHA256 and the JSON reader where the samples need them; the signed texts differ in length. -/
def sampleCrates : Crates where
  mac _ input := match input.length with
    | 83 => [73, 18, 97, 178, 79, 235, 151, 225, 19, 10, 228, 225, 113, 81, 117, 196, 131, 131, 0, 15, 140, 199, 43,
        134, 235, 146, 210, 120, 146, 56, 161, 242]
    | 86 => [114, 93, 239, 21, 115, 146, 163, 188, 210, 142, 120, 244, 12, 151, 31, 246, 89, 215, 168, 233, 34, 233,
        79, 105, 99, 162, 24, 232, 84, 224, 56, 54]
    | 87 => [42, 57, 73, 122, 140, 19, 19, 44, 49, 250, 45, 115, 38, 128, 250, 67, 182, 14, 229, 138, 54, 22, 68, 143,
        108, 80, 181, 102, 20, 220, 241, 93]
    | _ => []
  fromSlice bytes := [sampleToken, sampleLaterToken, sampleCookie].find? fun session => session.toVec = bytes

def sampleHost : Host := ⟨[], fun _ => none, fun _ => false⟩

/-- The forward of port 3000, private and without a slot. -/
def sampleForward : Forward := ⟨3000, .priv, none, none, none⟩

/-- A request with the sample cookie. -/
def sampleRequest : Request :=
  ⟨"GET", ['/'], none, [("cookie", (cookieName ++ '=' :: sign sampleCrates sampleConfig.cookies sampleCookie).utf8)]⟩

theorem cookie_sampleRequest : sampleRequest.cookie = some (sign sampleCrates sampleConfig.cookies sampleCookie) := by
  decide +kernel

theorem fromSlice_sampleCookie : sampleCrates.fromSlice sampleCookie.toVec = some sampleCookie := by decide

/-- The sample cookie verifies within its eight hours. -/
theorem verify_sampleCookie {now : Nat} (hnow : now < 28850) :
    verify sampleCrates sampleConfig.cookies [] (sign sampleCrates sampleConfig.cookies sampleCookie) "w" now
      cookieTtlSecs = .ok sampleCookie :=
  (verify_of_signed (signedSession_sign (by decide) fromSlice_sampleCookie)).1
    ⟨hnow, by decide, by decide, rfl, by decide, rfl⟩

/-- The private forward on slot 8444. -/
def sampleState : ProxyState :=
  ⟨(ForwardsState.withSlots proxySlots).run [.insert sampleForward, .bindSlot 8444 3000], .empty⟩

theorem handle_sampleRequest :
    (handle sampleCrates sampleHost sampleConfig sampleRequest 60 false "" sampleState).2 = .proxy 3000 := by
  have hsession : cookieSession sampleCrates sampleHost sampleConfig 60 sampleState.sessions
      (sign sampleCrates sampleConfig.cookies sampleCookie) = some sampleCookie :=
    cookieSession_of_verify (verify_sampleCookie (by decide)) (by decide)
  have hprivate : sampleState.forwards.inner.publicSlotPort 8444 = none := by decide
  have hslot : sampleState.forwards.inner.slotPort 8444 = some sampleCookie.port := by decide
  have hauth : authorize sampleCrates sampleHost sampleConfig sampleRequest 60 sampleState = .ok sampleCookie.port :=
    authorize_of_cookie hprivate cookie_sampleRequest hsession hslot
  exact handle_of_authorized (by decide) hauth rfl hprivate

theorem proxied_authorized_cookie : Admits sampleCrates sampleConfig 60 sampleState sampleRequest 3000 := by
  have h := proxied_authorized sampleCrates sampleHost sampleConfig sampleRequest 60 false "" sampleState 3000
    handle_sampleRequest
  refine h.2.2.resolve_left ?_
  rintro ⟨f, hf, hpublic⟩
  have hprivate : sampleState.forwards.inner.forwards[3000]?.all (·.visibility = .priv) = true := by decide
  rw [hf] at hprivate
  exact absurd (hpublic.symm.trans (of_decide_eq_true hprivate)) (by decide)

end Zedspaces.Supervisor
