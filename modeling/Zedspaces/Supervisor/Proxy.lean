/-
The preview proxy of one boot (`proxy.rs`): the table of redeemed tokens and revoked cookies, the bootstrap
and logout routes of a slot, and the decision which port a request is proxied to. A route reads the clock
once, in seconds. Connecting to the app and passing the request on come after the decision.
-/
import Zedspaces.Supervisor.PortAuth

namespace Zedspaces.Supervisor

open Std Lib

def authPath : Text := "/__zs/auth".toList

def logoutPath : Text := "/__zs/logout".toList

/-! ## Requests and responses -/

structure Request where
  method : String
  path : Text
  query : Option Text
  /-- The header lines, by lower-case name. -/
  headers : List (String × List UInt8)

/-- `HeaderValue::to_str` -/
def headerToStr (value : List UInt8) : Option Text :=
  if value.all fun b => (32 ≤ b && b < 127) || b = 9 then some (value.map fun b => Char.ofNat b.toNat) else none

/-- `HeaderValue::from_str` -/
def headerFromStr (value : Text) : Option Text :=
  if value.utf8.all fun b => (32 ≤ b && b ≠ 127) || b = 9 then some value else none

/-- The first line of that name, as a string. -/
def Request.header (req : Request) (name : String) : Option Text :=
  ((req.headers.find? (·.1 = name)).map Prod.snd).bind headerToStr

def Request.cookie (req : Request) : Option Text := (req.header "cookie").bind cookieFromHeader

inductive Body where
  | empty
  | error (code : String) (port : Option Port)
  | html (text : String)
  deriving DecidableEq, Repr

structure Response where
  status : Nat
  body : Body
  headers : List (String × Text)
  deriving DecidableEq

def noStore : String × Text := ("cache-control", "no-store".toList)

def jsonResponse (status : Nat) (code : String) (port : Option Port) : Response :=
  ⟨status, .error code port, [("content-type", "application/json".toList), noStore]⟩

def emptyResponse (status : Nat) : Response := ⟨status, .empty, [noStore]⟩

def htmlResponse (status : Nat) (html : String) : Response :=
  ⟨status, .html html, [("content-type", "text/html; charset=utf-8".toList), noStore]⟩

/-- Sets the header, unless the value is no header value. -/
def Response.with (r : Response) (name : String) (value : Text) : Response :=
  match headerFromStr value with
  | some value => { r with headers := r.headers ++ [(name, value)] }
  | none => r

/-- Whether `needle` occurs in the text. -/
def containsText (needle : Text) : Text → Bool
  | [] => needle = []
  | t@(_ :: rest) => needle.isPrefixOf t || containsText needle rest

def signInPage : String :=
  "<!doctype html><meta charset=\"utf-8\"><title>Sign in required</title><h1>This port is private</h1><p>Open it from your workspace's ports panel to sign in.</p>"

/-! ## Query parameters -/

def hexDigit (b : UInt8) : Option Nat :=
  if 0x30 ≤ b ∧ b ≤ 0x39 then some (b.toNat - 0x30)
  else if 0x41 ≤ b ∧ b ≤ 0x46 then some (b.toNat - 0x41 + 10)
  else if 0x61 ≤ b ∧ b ≤ 0x66 then some (b.toNat - 0x61 + 10)
  else none

/-- `u8::from_str_radix` at base 16 of two characters; it takes a leading `+`. -/
def fromStrRadix16 (high low : UInt8) : Option UInt8 :=
  if high = 0x2B then (hexDigit low).map UInt8.ofNat
  else do
    let h ← hexDigit high
    let l ← hexDigit low
    some (UInt8.ofNat (h * 16 + l))

/-- An escape takes three bytes; any other `%` stays. -/
def percentDecodeBytes : List UInt8 → List UInt8
  | a :: high :: low :: tail => match if a = 0x25 then fromStrRadix16 high low else none with
    | some byte => byte :: percentDecodeBytes tail
    | none => a :: percentDecodeBytes (high :: low :: tail)
  | short => short

def percentDecode (value : Text) : Text := Text.utf8Lossy none (percentDecodeBytes value.utf8)

def queryParam (query name : Text) : Option Text :=
  ((((query.splitOn '&').filterMap (Text.splitOnce '=')).find? (·.1 = name)).map
    fun pair => percentDecode pair.2).filter (· ≠ [])

theorem percentDecodeBytes_of_notMem {bytes : List UInt8} (h : 0x25 ∉ bytes) : percentDecodeBytes bytes = bytes := by
  fun_induction percentDecodeBytes bytes with
  | case1 a high low tail byte he ih =>
    have ha : a ≠ 0x25 := by
      rintro rfl
      exact h (List.mem_cons_self ..)
    rw [if_neg ha] at he
    cases he
  | case2 a high low tail he ih => rw [ih fun hmem => h (List.mem_cons_of_mem _ hmem)]
  | case3 short => rfl

/-- An ASCII value without escapes is read as it stands. -/
theorem percentDecode_of_plain {value : Text} (h : ∀ c ∈ value, Text.isAscii c = true ∧ c ≠ '%') :
    percentDecode value = value := by
  have hbytes : 0x25 ∉ value.utf8 := by
    induction value with
    | nil => exact List.not_mem_nil
    | cons c value ih =>
      obtain ⟨⟨hascii, hne⟩, hvalue⟩ := List.forall_mem_cons.1 h
      rw [Text.utf8_cons_ascii hascii, List.mem_cons, not_or]
      refine ⟨fun he => hne (Char.toNat_inj.1 ?_), ih hvalue⟩
      rw [← Text.toNat_byte hascii, ← he]; rfl
  rw [percentDecode, percentDecodeBytes_of_notMem hbytes]
  exact Text.utf8Lossy_utf8 fun c hc => (h c hc).1

/-- The first pair of a query is found under its name. -/
theorem queryParam_head {query name written value : Text} {rest : List Text}
    (hpairs : query.splitOn '&' = (name ++ '=' :: written) :: rest) (hname : '=' ∉ name)
    (hdecode : percentDecode written = value) (hne : value ≠ []) : queryParam query name = some value := by
  have hpair : Text.splitOnce '=' (name ++ '=' :: written) = some (name, written) :=
    Text.splitOnce_eq_some.2 ⟨rfl, hname⟩
  rw [queryParam, hpairs, List.filterMap_cons_some hpair, List.find?_cons_of_pos (by simp)]
  show (some (percentDecode written)).filter _ = _
  rw [hdecode]
  exact Option.filter_eq_some_iff.2 ⟨rfl, by simpa using hne⟩

/-- A pair of another name is passed over. -/
theorem queryParam_skip {name other written rest : Text} (hpair : '&' ∉ other ++ '=' :: written) (hother : '=' ∉ other)
    (hne : other ≠ name) : queryParam (other ++ '=' :: written ++ '&' :: rest) name = queryParam rest name := by
  have hsplit : Text.splitOnce '=' (other ++ '=' :: written) = some (other, written) :=
    Text.splitOnce_eq_some.2 ⟨rfl, hother⟩
  rw [queryParam, List.splitOn_append_cons_self_of_not_mem hpair, List.filterMap_cons_some hsplit,
    List.find?_cons_of_neg (by simpa using hne)]
  rfl

theorem bootstrapParam_plain : '&' ∉ bootstrapParam ∧ '=' ∉ bootstrapParam := by decide

theorem notMem_sign (c : Crates) (key : Key) (session : PortSession) :
    '&' ∉ bootstrapParam ++ '=' :: sign c key session := by
  rw [List.mem_append, List.mem_cons]
  rintro (h | h | h)
  · exact bootstrapParam_plain.1 h
  · exact absurd h (by decide)
  · exact (sign_plain c key session _ h).2.2 rfl

/-- The token of a query is read as it was signed, whatever pairs come after it. -/
theorem queryParam_sign (c : Crates) (key : Key) (session : PortSession) (rest : List Text) {query : Text}
    (hpairs : query.splitOn '&' = (bootstrapParam ++ '=' :: sign c key session) :: rest) :
    queryParam query bootstrapParam = some (sign c key session) := by
  refine queryParam_head hpairs bootstrapParam_plain.2 ?_ ?_
  · exact percentDecode_of_plain fun d hd => ⟨(sign_plain c key session d hd).1, (sign_plain c key session d hd).2.1⟩
  · simp [sign, signingInput, tokenPrefix]

/-! ## `SessionGuard` -/

abbrev Expiries := ExtTreeMap String Nat

/-- Redeemed bootstrap tokens and revoked cookies by `jti`, each with its expiry. -/
structure SessionGuard where
  redeemed : Expiries
  revoked : Expiries

def prune (map : Expiries) (now : Nat) : Expiries := map.filter fun _ exp => decide (now < exp)

namespace SessionGuard

def empty : SessionGuard := ⟨∅, ∅⟩

/-- `false` when the `jti` was redeemed before. -/
def redeem (g : SessionGuard) (jti : String) (exp now : Nat) : SessionGuard × Bool :=
  let redeemed := prune g.redeemed now
  if redeemed.contains jti then ({ g with redeemed }, false)
  else ({ g with redeemed := redeemed.insert jti exp }, true)

def revoke (g : SessionGuard) (jti : String) (exp now : Nat) : SessionGuard :=
  { g with revoked := (prune g.revoked now).insert jti exp }

def isRevoked (g : SessionGuard) (jti : String) (now : Nat) : Bool := g.revoked[jti]?.any (now < ·)

end SessionGuard

/-! ## The routes of a slot -/

structure ProxyConfig where
  slot : Slot
  bootstrap : Key
  cookies : Key
  workspaceId : String
  secureCookies : Bool

/-- What the slots of a boot share. -/
structure ProxyState where
  forwards : ForwardsState
  sessions : SessionGuard

/-- What the decision reads of the machine: the ports debuggers hold open, the owner of a listening port (none
also when the lookup fails), and which processes are being debugged. -/
structure Host where
  privatePorts : List Port
  ownerOfPort : Port → Option Nat
  isDebugProcess : Nat → Bool

section
variable (c : Crates) (host : Host) (cfg : ProxyConfig) (req : Request) (now : Nat)

def authFailure (status : Nat) (code : String) : Response :=
  let response := if (req.header "accept").any (containsText "text/html".toList) then htmlResponse status signInPage
    else jsonResponse status code none
  response.with "set-cookie" (clearCookieHeader cfg.secureCookies)

def logoutRoute (st : ProxyState) : ProxyState × Response :=
  let response := (emptyResponse 204).with "set-cookie" (clearCookieHeader cfg.secureCookies)
  match req.cookie with
  | none => (st, response)
  | some cookie => match verify c cfg.cookies host.privatePorts cookie cfg.workspaceId now cookieTtlSecs with
    | .error _ => (st, response)
    | .ok session => ({ st with sessions := st.sessions.revoke session.jti session.exp now }, response)

/-- The code a refused bootstrap token is answered with. -/
def authErrorCode : AuthError → String
  | .expired => "port_session_expired"
  | .wrongWorkspace => "wrong_workspace"
  | .badPort => "port_not_allowed"
  | _ => "port_session_invalid"

/-- The first half of `bootstrap_route`: the clock is read and the token verified. -/
def bootstrapVerify : Except Response PortSession :=
  if req.method ≠ "GET" then .error (jsonResponse 405 "method_not_allowed" none)
  else match queryParam (req.query.getD []) bootstrapParam with
    | none => .error (authFailure cfg req 401 "port_session_required")
    | some token =>
      match verify c cfg.bootstrap host.privatePorts token cfg.workspaceId now bootstrapMaxAgeSecs with
      | .error e => .error (authFailure cfg req 401 (authErrorCode e))
      | .ok session => .ok session

/-- Leaves the slot bound to the session's port, or says why it cannot be. -/
def bindSession (session : PortSession) (forwards : ForwardsState) : ForwardsState × Option Response :=
  match forwards.inner.slotPort cfg.slot with
  | some bound =>
    (forwards, if bound = session.port then none else some (authFailure cfg req 401 "port_session_stale"))
  | none => match forwards.bindSlot cfg.slot session.port with
    | (forwards, .ok ()) => (forwards, none)
    | (forwards, .error (.slotBusy ..)) => (forwards, some (authFailure cfg req 401 "port_session_stale"))
    | (forwards, .error (.portBoundElsewhere ..)) => (forwards, some (authFailure cfg req 401 "port_session_stale"))
    | (forwards, .error _) => (forwards, some (jsonResponse 404 "port_not_forwarded" (some session.port)))

/-- The session of the cookie that a redeemed token is exchanged for. -/
def cookieOf (session : PortSession) (jti : String) : PortSession :=
  ⟨cfg.workspaceId, session.port, session.sub, now, now + cookieTtlSecs, jti⟩

/-- The second half of `bootstrap_route`, up to the cookie: the token is redeemed at the clock reading of the
first half and the slot bound. -/
def bootstrapMint (jti : String) (session : PortSession) (st : ProxyState) : ProxyState × Except Response PortSession :=
  match st.sessions.redeem session.jti session.exp now with
  | (sessions, false) => ({ st with sessions }, .error (authFailure cfg req 401 "port_session_invalid"))
  | (sessions, true) => match bindSession cfg req session st.forwards with
    | (forwards, some refused) => (⟨forwards, sessions⟩, .error refused)
    | (forwards, none) => (⟨forwards, sessions⟩, .ok (cookieOf cfg now session jti))

/-- The redirect that sets the cookie. -/
def cookieResponse (session : PortSession) : Response :=
  let next := safeNext (queryParam (req.query.getD []) "next".toList)
  (((emptyResponse 303).with "location" next).with "referrer-policy" "no-referrer".toList).with "set-cookie"
    (setCookieHeader (sign c cfg.cookies session) cookieTtlSecs cfg.secureCookies)

def bootstrapRoute (jti : String) (st : ProxyState) : ProxyState × Response :=
  match bootstrapVerify c host cfg req now with
  | .error refused => (st, refused)
  | .ok session => match bootstrapMint cfg req now jti session st with
    | (st, .error refused) => (st, refused)
    | (st, .ok cookie) => (st, cookieResponse c cfg req cookie)

/-- The session of a cookie that verifies and is not revoked. -/
def cookieSession (sessions : SessionGuard) (cookie : Text) : Option PortSession :=
  match verify c cfg.cookies host.privatePorts cookie cfg.workspaceId now cookieTtlSecs with
  | .error _ => none
  | .ok session => if sessions.isRevoked session.jti now then none else some session

def authorize (st : ProxyState) : Except Response Port :=
  match st.forwards.inner.publicSlotPort cfg.slot with
  | some port => if isInfraPort host.privatePorts port then .error (jsonResponse 403 "infra_port" none) else .ok port
  | none => match req.cookie.bind (cookieSession c host cfg now st.sessions) with
    | none => .error (authFailure cfg req 401 "port_session_required")
    | some session => match st.forwards.inner.slotPort cfg.slot with
      | none => .error (jsonResponse 404 "slot_unbound" none)
      | some bound =>
        if bound ≠ session.port then .error (authFailure cfg req 401 "port_session_stale") else .ok bound

inductive Outcome where
  | respond (response : Response)
  | proxy (target : Port)
  deriving DecidableEq

def forward (st : ProxyState) : Outcome :=
  match authorize c host cfg req now st with
  | .error refused => .respond refused
  | .ok target =>
    if isInfraPort host.privatePorts target then .respond (jsonResponse 403 "infra_port" none)
    -- A debugger may have taken over a public app's port since the last scan.
    else if st.forwards.inner.publicSlotPort cfg.slot = some target ∧
        (host.ownerOfPort target).all host.isDebugProcess then .respond (jsonResponse 403 "private_debug_service" none)
    else .proxy target

/-- One request on the slot; `busy` when the slot's requests in flight are at their limit. -/
def handle (busy : Bool) (jti : String) (st : ProxyState) : ProxyState × Outcome :=
  if busy then (st, .respond (jsonResponse 503 "proxy_busy" none))
  else if req.path = authPath then
    let (st, response) := bootstrapRoute c host cfg req now jti st
    (st, .respond response)
  else if req.path = logoutPath then
    let (st, response) := logoutRoute c host cfg req now st
    (st, .respond response)
  else (st, forward c host cfg req now st)

end

end Zedspaces.Supervisor
