/-
The port sessions of one boot: bootstraps, logouts and proxied requests on any slots, beside changes of the
forward table, under a clock that does not go back. A bootstrap is two steps, since the routes of other
requests run between its verification, which reads the clock, and its redemption, which uses that reading.
-/
import Zedspaces.Lib.System
import Zedspaces.Supervisor.PortAccess

namespace Zedspaces.Supervisor

open Std Lib Lib.System

abbrev RequestId := Nat

/-- A bootstrap whose token has been verified at the clock reading `now`. -/
structure Bootstrap where
  id : RequestId
  slot : Slot
  req : Request
  token : Text
  session : PortSession
  now : Nat

/-- A token presented for redemption with the clock reading `now`, and whether it was taken. -/
structure Redemption where
  token : Text
  session : PortSession
  now : Nat
  accepted : Bool

/-- The boot's clock and shared state, the bootstraps between their steps, and, newest first, the redemptions,
the tokens exchanged for cookies, and the cookies logged out. -/
structure Boot where
  clock : Nat
  state : ProxyState
  bootstraps : List Bootstrap
  redemptions : List Redemption
  minted : List (Text × PortSession)
  loggedOut : List Text

inductive BootEvent where
  | advance (seconds : Nat)
  | verify (host : Host) (id : RequestId) (slot : Slot) (req : Request)
  | redeem (id : RequestId) (jti : String)
  | logout (host : Host) (slot : Slot) (req : Request)
  | request (host : Host) (slot : Slot) (req : Request)
  | table (op : ForwardOp)

/-- The configuration of another slot of the boot. -/
def ProxyConfig.on (cfg : ProxyConfig) (slot : Slot) : ProxyConfig := { cfg with slot }

/-- The token a bootstrap request carries. -/
def Request.token (req : Request) : Option Text := queryParam (req.query.getD []) bootstrapParam

section
variable (c : Crates) (cfg : ProxyConfig)

/-- The first step of a bootstrap; a refused one is over. -/
def Boot.verify (s : Boot) (host : Host) (id : RequestId) (slot : Slot) (req : Request) : Boot :=
  match bootstrapVerify c host (cfg.on slot) req s.clock, req.token with
  | .ok session, some token =>
    { s with bootstraps := ⟨id, slot, req, token, session, s.clock⟩ :: s.bootstraps }
  | _, _ => s

/-- The second step. -/
def Boot.redeem (s : Boot) (b : Bootstrap) (jti : String) : Boot :=
  let r := bootstrapMint (cfg.on b.slot) b.req b.now jti b.session s.state
  let accepted := (s.state.sessions.redeem b.session.jti b.session.exp b.now).2
  { s with
    state := r.1
    bootstraps := s.bootstraps.filter (·.id ≠ b.id)
    redemptions := ⟨b.token, b.session, b.now, accepted⟩ :: s.redemptions
    minted := match r.2 with
      | .ok cookie => (b.token, cookie) :: s.minted
      | .error _ => s.minted }

/-- The cookie of a logout, when it verifies. -/
def logoutCookie (host : Host) (slot : Slot) (req : Request) (now : Nat) : Option Text :=
  req.cookie.filter fun cookie =>
    (verify c (cfg.on slot).cookies host.privatePorts cookie cfg.workspaceId now cookieTtlSecs).isOk

def Boot.logout (s : Boot) (host : Host) (slot : Slot) (req : Request) : Boot :=
  { s with
    state := (logoutRoute c host (cfg.on slot) req s.clock s.state).1
    loggedOut := (logoutCookie c cfg host slot req s.clock).toList ++ s.loggedOut }

def Boot.step (s : Boot) : BootEvent → Option Boot
  | .advance seconds => some { s with clock := s.clock + seconds }
  | .verify host id slot req =>
    if s.bootstraps.any (·.id = id) then none else some (s.verify c cfg host id slot req)
  | .redeem id jti => (s.bootstraps.find? (·.id = id)).map fun b => s.redeem cfg b jti
  | .logout host slot req => some (s.logout c cfg host slot req)
  | .request _ _ _ => some s
  | .table op => some { s with state := { s.state with forwards := op.apply s.state.forwards } }

/-- A boot at any time and with any forward table that nobody has used yet. -/
def boot : System Boot BootEvent where
  init s := s.state.sessions = .empty ∧ s.bootstraps = [] ∧ s.redemptions = [] ∧ s.minted = [] ∧ s.loggedOut = []
  step := Boot.step c cfg

end

/-! ## What a step of the session table does -/

variable {c : Crates} {cfg : ProxyConfig} {host : Host} {g : SessionGuard} {jti j : String} {exp now : Nat}
  {req : Request} {session : PortSession}

theorem getElem?_prune {map : Expiries} : (prune map now)[j]? = map[j]?.filter (now < ·) :=
  ExtTreeMap.getElem?_filter'

/-- A token is taken unless a record of it is still in force at the clock reading. -/
theorem redeem_taken : (g.redeem jti exp now).2 = true ↔ g.redeemed[jti]?.filter (now < ·) = none := by
  have hcontains : (prune g.redeemed now).contains jti = (g.redeemed[jti]?.filter (now < ·)).isSome := by
    rw [← getElem?_prune, ExtTreeMap.contains_eq_isSome_getElem?]
  unfold SessionGuard.redeem
  dsimp only
  rw [hcontains]
  cases g.redeemed[jti]?.filter (now < ·) <;> simp

/-- A taken token is recorded with its expiry; every other record in force stays. -/
theorem redeemed_redeem : (g.redeem jti exp now).1.redeemed[j]? =
    if j = jti ∧ (g.redeem jti exp now).2 = true then some exp else g.redeemed[j]?.filter (now < ·) := by
  unfold SessionGuard.redeem
  dsimp only
  split
  · simp [getElem?_prune]
  · rw [Maps.getElem?_insert, getElem?_prune]
    simp [eq_comm]

theorem revoked_revoke : (g.revoke jti exp now).revoked[j]? =
    if jti = j then some exp else g.revoked[j]?.filter (now < ·) := by
  rw [SessionGuard.revoke, Maps.getElem?_insert, getElem?_prune]

/-- A bootstrap changes the redeemed tokens only. -/
theorem bootstrapMint_sessions {slot : Slot} {st : ProxyState} :
    (bootstrapMint (cfg.on slot) req now j session st).1.sessions = (st.sessions.redeem session.jti session.exp now).1 := by
  unfold bootstrapMint
  split
  · next sessions hredeem => rw [hredeem]
  · next sessions hredeem => split <;> rw [hredeem]

/-- A cookie is minted only for a token that was taken. -/
theorem bootstrapMint_ok {slot : Slot} {st : ProxyState} {cookie : PortSession}
    (h : (bootstrapMint (cfg.on slot) req now j session st).2 = .ok cookie) :
    (st.sessions.redeem session.jti session.exp now).2 = true ∧ cookie = cookieOf (cfg.on slot) now session j := by
  unfold bootstrapMint at h
  split at h
  · cases h
  · next sessions hredeem =>
    split at h
    · cases h
    · cases h
      exact ⟨by rw [hredeem], rfl⟩

/-- A verified bootstrap's token carries its session, and has not expired. -/
theorem bootstrapVerify_ok {slot : Slot} (h : bootstrapVerify c host (cfg.on slot) req now = .ok session) :
    ∃ token, req.token = some token ∧
      Verified c cfg.bootstrap host.privatePorts token cfg.workspaceId now bootstrapMaxAgeSecs session := by
  unfold bootstrapVerify at h
  split at h
  · cases h
  · split at h
    · cases h
    · next token htoken =>
      split at h
      · cases h
      · next session' hverify =>
        cases h
        exact ⟨token, htoken, verify_eq_ok hverify⟩

theorem minted_logout {s : Boot} {slot : Slot} : (s.logout c cfg host slot req).minted = s.minted := rfl

/-- A logout changes the revoked cookies only. -/
theorem forwards_logout {s : Boot} {slot : Slot} :
    (s.logout c cfg host slot req).state.forwards = s.state.forwards := by
  unfold Boot.logout logoutRoute
  dsimp only
  split
  · rfl
  · split <;> rfl

/-! ## What a step adds -/

variable {s : Boot} {b : Bootstrap} {id : RequestId} {slot : Slot} {token : Text}

/-- A token that verifies is taken up for redemption, with the clock reading it was verified at. -/
theorem step_verify (hnew : s.bootstraps.any (·.id = id) = false) (hmethod : req.method = "GET")
    (htoken : req.token = some token)
    (hverify : verify c cfg.bootstrap host.privatePorts token cfg.workspaceId s.clock bootstrapMaxAgeSecs =
      .ok session) :
    (boot c cfg).step s (.verify host id slot req) =
      some { s with bootstraps := ⟨id, slot, req, token, session, s.clock⟩ :: s.bootstraps } := by
  have hok : bootstrapVerify c host (cfg.on slot) req s.clock = .ok session :=
    bootstrapVerify_of_ok hmethod htoken hverify
  show (if s.bootstraps.any (·.id = id) then none else some (s.verify c cfg host id slot req)) = _
  rw [hnew, if_neg Bool.false_ne_true, Boot.verify, hok, htoken]

theorem minted_redeem {cookie : PortSession}
    (h : (bootstrapMint (cfg.on b.slot) b.req b.now j b.session s.state).2 = .ok cookie) :
    (s.redeem cfg b j).minted = (b.token, cookie) :: s.minted := by
  unfold Boot.redeem
  dsimp only
  rw [h]

/-- A redemption that mints adds its token. -/
theorem tokens_redeem (h : (bootstrapMint (cfg.on b.slot) b.req b.now j b.session s.state).2.isOk = true) :
    (s.redeem cfg b j).minted.map Prod.fst = b.token :: s.minted.map Prod.fst := by
  cases hmint : (bootstrapMint (cfg.on b.slot) b.req b.now j b.session s.state).2 with
  | ok cookie => rw [minted_redeem hmint]; rfl
  | error refused =>
    rw [hmint] at h
    cases h

theorem minted_redeem_of_refused {refused : Response}
    (h : (bootstrapMint (cfg.on b.slot) b.req b.now j b.session s.state).2 = .error refused) :
    (s.redeem cfg b j).minted = s.minted := by
  unfold Boot.redeem
  dsimp only
  rw [h]

end Zedspaces.Supervisor
