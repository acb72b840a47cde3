/-
The link to a private port: the token the control plane mints and the redirect that presents it to the port's
slot (`port-token.ts`, the `open` route). The token is an ES256 JWT; the supervisor's verifier knows only its own
`v1.` format and refuses every one of them, whatever its keys are (`port_token_refused`).
-/
import Zedspaces.Web.Forwards
import Zedspaces.Supervisor.PortAccess

namespace Zedspaces.Web

open Lib Supervisor

def portBootstrapTtlSecs : Nat := 600

/-! ## The token -/

/-- The active signing key: its id, and its ES256 signature over bytes. -/
structure SigningKeys where
  kid : String
  es256 : List UInt8 → List UInt8
  issuer : String

structure PortBootstrapInput where
  userId : String
  workspaceId : String
  audience : String
  port : Int

inductive TokenError where
  | port (port : Int)
  deriving DecidableEq, Repr

def portAudience (audience : String) : Text := audience.toList ++ "/ports".toList

/-- A signed JWT in compact form. -/
def compactJws (keys : SigningKeys) (header payload : Text) : Text :=
  let input : Text := Base64Url.encode header.utf8 ++ '.' :: Base64Url.encode payload.utf8
  input ++ '.' :: Base64Url.encode (keys.es256 input.utf8)

def jwtHeader (keys : SigningKeys) : Text :=
  Json.object [("alg".toList, Json.string "ES256".toList), ("typ".toList, Json.string "JWT".toList),
    ("kid".toList, Json.string keys.kid.toList)]

def portClaims (keys : SigningKeys) (input : PortBootstrapInput) (iat : Nat) (jti : String) : Text :=
  Json.object [("ws".toList, Json.string input.workspaceId.toList),
    ("sid".toList, Json.string ("port:".toList ++ Json.number input.port.toNat)),
    ("iss".toList, Json.string keys.issuer.toList), ("sub".toList, Json.string input.userId.toList),
    ("aud".toList, Json.string (portAudience input.audience)), ("iat".toList, Json.number iat),
    ("exp".toList, Json.number (iat + portBootstrapTtlSecs)), ("jti".toList, Json.string jti.toList)]

variable (e : Env)

def mintPortBootstrapToken (keys : SigningKeys) (input : PortBootstrapInput) (nowMs : Nat) (jti : String) :
    Except TokenError Text :=
  if input.port < 1 ∨ 65535 < input.port ∨ isInfraPort e input.port then .error (.port input.port)
  else .ok (compactJws keys (jwtHeader keys) (portClaims keys input (nowMs / 1000) jti))

/-! ## The route -/

def isUnreserved (c : Char) : Bool :=
  isAsciiAlphanumeric c.toNat || c ∈ ['-', '_', '.', '!', '~', '*', '\'', '(', ')']

def encodeURIComponent (value : Text) : Text :=
  value.flatMap fun c =>
    if isUnreserved c then [c]
    else (String.utf8EncodeChar c).flatMap fun byte =>
      ['%', Text.upperHexDigit (byte.toNat / 16), Text.upperHexDigit (byte.toNat % 16)]

/-- Where the route redirects to. -/
structure AuthRedirect where
  scheme : String
  host : String
  path : Text
  query : Text

def authRedirect (slotHostname : String) (token next : Text) : AuthRedirect where
  scheme := if e.backend ≠ .vercel then "http" else "https"
  host := slotHostname
  path := authPath
  query := bootstrapParam ++ '=' :: encodeURIComponent token ++ '&' :: ("next=".toList ++ encodeURIComponent next)

inductive OpenError where
  | invalidPort
  | infraPort
  | notFound
  | workspaceNotRunning
  | token (error : TokenError)
  deriving DecidableEq, Repr

/-- `port` is the path segment as a number, when it is an integer. -/
def assertUserPort (port : Option Int) : Except OpenError Int :=
  match port with
  | none => .error .invalidPort
  | some port =>
    if port < 1 ∨ 65535 < port then .error .invalidPort
    else if isInfraPort e port then .error .infraPort
    else .ok port

/-- The slot of the private forward of the port. -/
def privateSlot (rows : List ForwardRow) (port : Int) : Option Slot :=
  ((rows.find? (·.port = port)).filter (·.visibility = .priv)).bind ForwardRow.slot

/-- `GET /api/workspaces/{id}/ports/{port}/open` of the workspace's owner. -/
def openPort (keys : SigningKeys) (ws : ForwardWorkspace) (audience userId : String) (rows : List ForwardRow)
    (port : Option Int) (nowMs : Nat) (jti : String) : Except OpenError AuthRedirect :=
  match assertUserPort e port with
  | .error error => .error error
  | .ok port => match privateSlot rows port with
    | none => .error .notFound
    | some slot => match (slotHost ws slot).filter fun host => decide (host ≠ "" ∧ ws.state = .running) with
      | none => .error .workspaceNotRunning
      | some host => match mintPortBootstrapToken e keys ⟨userId, ws.id, audience, port⟩ nowMs jti with
        | .error error => .error (.token error)
        | .ok token => .ok (authRedirect e host token ['/'])

/-- The browser's request for a redirect. -/
def AuthRedirect.request (redirect : AuthRedirect) (headers : List (String × List UInt8)) : Request :=
  ⟨"GET", redirect.path, some redirect.query, headers⟩

/-! ## What the supervisor makes of it -/

variable {e : Env} {keys : SigningKeys}

/-- The characters of a compact JWT. -/
def IsTokenChar (c : Char) : Prop := c ∈ '.' :: Base64Url.alphabet

theorem IsTokenChar.plain {c : Char} (h : IsTokenChar c) :
    isUnreserved c = true ∧ Text.isAscii c = true ∧ c ≠ '%' ∧ c ≠ '&' := by
  have hall : ∀ c ∈ '.' :: Base64Url.alphabet, isUnreserved c = true ∧ Text.isAscii c = true ∧ c ≠ '%' ∧ c ≠ '&' :=
    Text.forall_mem_of_all (by decide)
  exact hall c h

theorem compactJws_chars (header payload : Text) : ∀ c ∈ compactJws keys header payload, IsTokenChar c := by
  intro c hc
  simp only [compactJws, List.mem_append, List.mem_cons] at hc
  have hencoded : ∀ bytes, c ∈ Base64Url.encode bytes → IsTokenChar c := fun bytes h =>
    List.mem_cons_of_mem _ (Base64Url.encode_mem bytes c h)
  rcases hc with (h | rfl | h) | rfl | h
  · exact hencoded _ h
  · exact List.mem_cons_self ..
  · exact hencoded _ h
  · exact List.mem_cons_self ..
  · exact hencoded _ h

theorem encodeURIComponent_of_unreserved {value : Text} (h : ∀ c ∈ value, isUnreserved c = true) :
    encodeURIComponent value = value := by
  induction value with
  | nil => rfl
  | cons c value ih =>
    obtain ⟨hc, hvalue⟩ := List.forall_mem_cons.1 h
    rw [encodeURIComponent, List.flatMap_cons, if_pos hc]
    exact congrArg (c :: ·) (ih hvalue)

/-- The slot reads the token out of the redirect as it was minted. -/
theorem queryParam_authRedirect {host : String} {token next : Text} (h : ∀ c ∈ token, IsTokenChar c)
    (hne : token ≠ []) : queryParam (authRedirect e host token next).query bootstrapParam = some token := by
  have hfirst : '&' ∉ bootstrapParam ++ '=' :: token := by
    rw [List.mem_append, List.mem_cons]
    rintro (h' | h' | h')
    · exact bootstrapParam_plain.1 h'
    · exact absurd h' (by decide)
    · exact (h _ h').plain.2.2.2 rfl
  have hdecode : percentDecode token = token :=
    percentDecode_of_plain fun c hc => ⟨(h c hc).plain.2.1, (h c hc).plain.2.2.1⟩
  show queryParam (bootstrapParam ++ '=' :: encodeURIComponent token ++ '&' :: _) bootstrapParam = some token
  rw [encodeURIComponent_of_unreserved fun c hc => (h c hc).plain.1]
  exact queryParam_head (List.splitOn_append_cons_self_of_not_mem hfirst _) bootstrapParam_plain.2 hdecode hne

/-- No JWT is a token of the supervisor: its first part is longer than `v1`. -/
theorem signedSession_compactJws (c : Crates) (key : Key) (header payload : Text) (h : 2 ≤ header.length) :
    signedSession c key (compactJws keys header payload) = .error .malformed := by
  have hdot : '.' ∉ Base64Url.alphabet := by decide
  have hparts : threeParts (compactJws keys header payload) = some (Base64Url.encode header.utf8,
      Base64Url.encode payload.utf8, Base64Url.encode (keys.es256
        (Text.utf8 (Base64Url.encode header.utf8 ++ '.' :: Base64Url.encode payload.utf8)))) :=
    threeParts_eq_some.2 ⟨rfl, Base64Url.notMem_encode hdot _, Base64Url.notMem_encode hdot _⟩
  have hlong : 2 < (Base64Url.encode header.utf8).length := by
    have hbytes := Text.length_le_utf8 header
    have hne : header.utf8 ≠ [] := by
      intro hnil
      rw [hnil, List.length_nil] at hbytes
      omega
    have := Base64Url.lt_length_encode hne
    omega
  have hprefix : Base64Url.encode header.utf8 ≠ tokenPrefix := by
    intro he
    rw [he] at hlong
    exact absurd hlong (by decide)
  unfold signedSession
  rw [hparts]
  exact if_pos (.inl hprefix)

theorem openPort_eq_ok {ws : ForwardWorkspace} {audience userId : String} {rows : List ForwardRow} {port : Option Int}
    {nowMs : Nat} {jti : String} {redirect : AuthRedirect}
    (h : openPort e keys ws audience userId rows port nowMs jti = .ok redirect) :
    ∃ host payload, redirect = authRedirect e host (compactJws keys (jwtHeader keys) payload) ['/'] := by
  unfold openPort at h
  split at h
  · cases h
  · split at h
    · cases h
    · split at h
      · cases h
      · next host hhost =>
        split at h
        · cases h
        · next token hmint =>
          cases h
          unfold mintPortBootstrapToken at hmint
          split at hmint
          · cases hmint
          · cases hmint
            exact ⟨host, _, rfl⟩

/-- The slot refuses the token of every link. -/
theorem bootstrapVerify_openPort {ws : ForwardWorkspace} {audience userId : String} {rows : List ForwardRow}
    {port : Option Int} {nowMs : Nat} {jti : String} {redirect : AuthRedirect}
    (h : openPort e keys ws audience userId rows port nowMs jti = .ok redirect) (c : Crates) (host : Host)
    (cfg : ProxyConfig) (headers : List (String × List UInt8)) (now : Nat) :
    bootstrapVerify c host cfg (redirect.request headers) now =
      .error (authFailure cfg (redirect.request headers) 401 "port_session_invalid") := by
  obtain ⟨slotHost, payload, rfl⟩ := openPort_eq_ok h
  have hlength : 2 ≤ (jwtHeader keys).length := Json.two_le_length_object _
  have hne : compactJws keys (jwtHeader keys) payload ≠ [] := by simp [compactJws]
  have hparam : queryParam (authRedirect e slotHost (compactJws keys (jwtHeader keys) payload) ['/']).query
      bootstrapParam = some (compactJws keys (jwtHeader keys) payload) :=
    queryParam_authRedirect (compactJws_chars _ _) hne
  have hrefused : verify c cfg.bootstrap host.privatePorts (compactJws keys (jwtHeader keys) payload) cfg.workspaceId
      now bootstrapMaxAgeSecs = .error .malformed := by
    rw [verify, signedSession_compactJws c cfg.bootstrap _ _ hlength]
  have hcode : authErrorCode .malformed = "port_session_invalid" := rfl
  rw [← hcode]
  exact bootstrapVerify_of_error rfl hparam hrefused

/-- The request opens a session for the port. -/
def OpensSession (c : Crates) (host : Host) (cfg : ProxyConfig) (req : Request) (now : Nat) (jti : String)
    (st : ProxyState) (port : Int) : Prop :=
  ∃ session cookie, bootstrapVerify c host cfg req now = .ok session ∧
    (bootstrapMint cfg req now jti session st).2 = .ok cookie ∧ (cookie.port : Int) = port

/-- Every link to a private port is refused by the slot it leads to, at any moment and under any keys. -/
theorem port_token_refused (e : Env) (keys : SigningKeys) (ws : ForwardWorkspace) (audience userId : String)
    (rows : List ForwardRow) (port : Int) (nowMs : Nat) (jti : String) (redirect : AuthRedirect)
    (h : openPort e keys ws audience userId rows (some port) nowMs jti = .ok redirect) (c : Crates) (host : Host)
    (cfg : ProxyConfig) (headers : List (String × List UInt8)) (now : Nat) (jti' : String) (st : ProxyState) :
    ¬ OpensSession c host cfg (redirect.request headers) now jti' st port ∧
      handle c host cfg (redirect.request headers) now false jti' st =
        (st, .respond (authFailure cfg (redirect.request headers) 401 "port_session_invalid")) := by
  have hverify := bootstrapVerify_openPort h c host cfg headers now
  obtain ⟨slotHost, payload, hredirect⟩ := openPort_eq_ok h
  refine ⟨?_, handle_of_refused (by rw [hredirect]; rfl) hverify⟩
  rintro ⟨session, cookie, hsession, -⟩
  rw [hverify] at hsession
  cases hsession

/-! ## A link -/

/-- A signing key where the sample link needs it. -/
def sampleKeys : SigningKeys where
  kid := "k"
  es256 _ := [208, 176, 29, 122, 182, 232, 14, 207, 225, 83, 209, 121, 153, 16, 14, 24, 186, 235, 15, 248, 165, 233, 94,
    243, 4, 182, 165, 232, 6, 24, 6, 182, 226, 138, 1, 222, 88, 163, 32, 233, 165, 166, 76, 25, 85, 47, 28, 235, 2, 2,
    129, 53, 142, 97, 118, 137, 69, 113, 196, 219, 249, 71, 83, 249]
  issuer := "z"

/-- The link to the private port 3000 of a running workspace at second 50. -/
def sampleLink : Except OpenError AuthRedirect :=
  openPort sampleEnv sampleKeys ⟨"w", .running, some [(8444, "s.z")]⟩ "a" "u" [⟨3000, .priv, none, none, some 8444⟩]
    (some 3000) 50000 "j"

theorem exists_sampleLink : ∃ redirect, sampleLink = .ok redirect := by
  have hok : sampleLink.isOk = true := by decide
  revert hok
  cases sampleLink with
  | ok redirect => exact fun _ => ⟨redirect, rfl⟩
  | error error => exact fun hok => absurd hok Bool.false_ne_true

theorem port_token_refused_sample : ∃ redirect, sampleLink = .ok redirect ∧
    (handle sampleCrates sampleHost sampleConfig (redirect.request []) 50 false "c" sampleState).2 =
      .respond (authFailure sampleConfig (redirect.request []) 401 "port_session_invalid") := by
  obtain ⟨redirect, h⟩ := exists_sampleLink
  refine ⟨redirect, h, ?_⟩
  rw [(port_token_refused _ _ _ _ _ _ _ _ _ redirect h sampleCrates sampleHost sampleConfig [] 50 "c" sampleState).2]

/-- A link used in the second it was made, on the slot of its port, opens no session. -/
theorem port_link_opens_nothing : ¬ ∀ (e : Env) (keys : SigningKeys) (ws : ForwardWorkspace) (audience userId : String)
    (rows : List ForwardRow) (port : Int) (nowMs : Nat) (jti : String) (redirect : AuthRedirect),
    openPort e keys ws audience userId rows (some port) nowMs jti = .ok redirect →
    ∀ (c : Crates) (host : Host) (cfg : ProxyConfig) (now : Nat) (jti' : String) (st : ProxyState),
      cfg.workspaceId = ws.id → nowMs / 1000 ≤ now → now < nowMs / 1000 + portBootstrapTtlSecs →
      privateSlot rows port = some cfg.slot → st.forwards.inner.slotPort cfg.slot = some port.toNat →
      OpensSession c host cfg (redirect.request []) now jti' st port := by
  intro h
  obtain ⟨redirect, hlink⟩ := exists_sampleLink
  obtain ⟨session, cookie, hsession, -⟩ := h _ _ _ _ _ _ _ _ _ redirect hlink sampleCrates sampleHost sampleConfig 50 "c"
    sampleState rfl (by decide) (by decide) (by decide) (by decide)
  rw [bootstrapVerify_openPort hlink] at hsession
  cases hsession

end Zedspaces.Web
