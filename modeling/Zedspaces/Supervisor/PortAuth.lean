/-
Port bootstrap tokens and proxy session cookies (`port_auth.rs`): one token format for both, the `Cookie`
and `Set-Cookie` headers, and the redirect after a bootstrap. HMAC-SHA256 and the reading of a payload's JSON are
parameters.
-/
import Zedspaces.Lib.Base64Url
import Zedspaces.Lib.Json
import Zedspaces.Supervisor.Forwards

namespace Zedspaces.Supervisor

open Lib

/-- `config::INFRA_PORTS` -/
def infraPorts : List Port :=
  [22, 53, 111, 8443, 8444, 8445, 8446, 8447, 8448, 8449, 8450, 8451, 8452, 8453, 8454, 8455,
   8456, 8457, 8458, 8459, 8460, 23456]

/-- `ports::is_infra_port`; `privatePorts` are the ports debuggers hold open. -/
def isInfraPort (privatePorts : List Port) (port : Port) : Bool := port ∈ infraPorts || port ∈ privatePorts

def cookieName : Text := "zs_port_session".toList

def bootstrapParam : Text := "zs_port_token".toList

def tokenPrefix : Text := ['v', '1']

def cookieTtlSecs : Nat := 8 * 3600

def bootstrapMaxAgeSecs : Nat := 3600

/-- Token payload. -/
structure PortSession where
  ws : String
  port : Port
  sub : String
  iat : Nat
  exp : Nat
  jti : String
  deriving DecidableEq, Repr

inductive AuthError where
  | malformed
  | badSignature
  | expired
  | wrongWorkspace
  | badPort
  | wrongSlot
  deriving DecidableEq, Repr

abbrev Key := Vector UInt8 32

/-- HMAC-SHA256, and the JSON reader of a payload. -/
structure Crates where
  mac : Key → List UInt8 → List UInt8
  fromSlice : List UInt8 → Option PortSession

/-- `serde_json::to_vec`; the fields in wire order. -/
def PortSession.toVec (session : PortSession) : List UInt8 :=
  (Json.object [("ws".toList, Json.string session.ws.toList), ("port".toList, Json.number session.port),
    ("sub".toList, Json.string session.sub.toList), ("iat".toList, Json.number session.iat),
    ("exp".toList, Json.number session.exp), ("jti".toList, Json.string session.jti.toList)]).utf8

/-! ## The codec -/

section
variable (c : Crates) (key : Key)

/-- The text a token's signature is over. -/
def signingInput (payload : Text) : Text := tokenPrefix ++ '.' :: payload

def sign (session : PortSession) : Text :=
  let input := signingInput (Base64Url.encode session.toVec)
  input ++ '.' :: Base64Url.encode (c.mac key input.utf8)

/-- `splitn(3, '.')`, when it gives three parts. -/
def threeParts (token : Text) : Option (Text × Text × Text) := do
  let (pfx, rest) ← token.splitOnce '.'
  let (payload, signature) ← Text.splitOnce '.' rest
  some (pfx, payload, signature)

/-- The session a token carries, once its signature has been found to match. -/
def signedSession (token : Text) : Except AuthError PortSession :=
  match threeParts token with
  | none => .error .malformed
  | some (pfx, payload, signature) =>
    if pfx ≠ tokenPrefix ∨ payload = [] ∨ signature = [] then .error .malformed
    else match Base64Url.decode signature with
      | none => .error .malformed
      | some signature =>
        if c.mac key (pfx ++ '.' :: payload : Text).utf8 ≠ signature then .error .badSignature
        else match (Base64Url.decode payload).bind c.fromSlice with
          | none => .error .malformed
          | some session => .ok session

def verify (privatePorts : List Port) (token : Text) (workspaceId : String) (now maxAge : Nat) :
    Except AuthError PortSession :=
  match signedSession c key token with
  | .error e => .error e
  | .ok session =>
    if session.exp ≤ now ∨ session.exp < session.iat ∨ maxAge < session.exp - session.iat then .error .expired
    else if session.ws ≠ workspaceId then .error .wrongWorkspace
    else if session.port = 0 ∨ isInfraPort privatePorts session.port then .error .badPort
    else .ok session

end

/-! ## Headers -/

/-- The `zs_port_session` value of a `Cookie` header. -/
def cookieFromHeader (header : Text) : Option Text :=
  (((header.splitOn ';').map Text.trim).findSome? fun pair =>
    (Text.stripPrefix cookieName pair).bind (Text.stripPrefix ['='])).filter (· ≠ [])

def setCookieHeader (token : Text) (maxAge : Nat) (secure : Bool) : Text :=
  cookieName ++ '=' :: token ++ "; Path=/; HttpOnly; SameSite=Lax; Max-Age=".toList ++ (toString maxAge).toList ++
    if secure then "; Secure".toList else []

def clearCookieHeader (secure : Bool) : Text := setCookieHeader [] 0 secure

def isAsciiControl (c : Char) : Bool := c.toNat < 32 || c.toNat = 127

def isSameOriginPath (value : Text) : Bool :=
  ['/'].isPrefixOf value && !(['/', '/'].isPrefixOf value) && !(['/', '\\'].isPrefixOf value) &&
    !value.any fun c => isAsciiControl c || Text.isWhitespace c || c = '\\'

def isAsciiAlphanumeric (b : Nat) : Bool :=
  (0x30 ≤ b && b ≤ 0x39) || (0x41 ≤ b && b ≤ 0x5A) || (0x61 ≤ b && b ≤ 0x7A)

/-- The bytes a `Location` keeps besides letters and digits. -/
def locationBytes : List Nat := ("-._~!$&'()*+,;=:@/?#".toList).map Char.toNat

def encodeLocation (value : Text) : Text :=
  value.utf8.flatMap fun byte =>
    if isAsciiAlphanumeric byte.toNat || byte.toNat ∈ locationBytes then [Char.ofNat byte.toNat]
    else ['%', Text.upperHexDigit (byte.toNat / 16), Text.upperHexDigit (byte.toNat % 16)]

def safeNext (next : Option Text) : Text :=
  match next with
  | some value => if isSameOriginPath value then encodeLocation value else ['/']
  | none => ['/']

/-! ## What a verified token says -/

variable {c : Crates} {key : Key} {token payload signature : Text} {session : PortSession}

/-- The token is signed with the key and carries the session. -/
def SignedWith (c : Crates) (key : Key) (token : Text) (session : PortSession) : Prop :=
  ∃ payload signature, token = signingInput payload ++ '.' :: signature ∧ '.' ∉ payload ∧
    Base64Url.decode signature = some (c.mac key (signingInput payload).utf8) ∧
    (Base64Url.decode payload).bind c.fromSlice = some session

theorem threeParts_eq_some {pfx : Text} : threeParts token = some (pfx, payload, signature) ↔
    token = pfx ++ '.' :: payload ++ '.' :: signature ∧ '.' ∉ pfx ∧ '.' ∉ payload := by
  constructor
  · intro h
    obtain ⟨⟨a, rest⟩, h₁, h⟩ := Option.bind_eq_some_iff.1 h
    obtain ⟨⟨b, d⟩, h₂, h⟩ := Option.bind_eq_some_iff.1 h
    cases h
    obtain ⟨rfl, ha⟩ := Text.splitOnce_eq_some.1 h₁
    obtain ⟨rfl, hb⟩ := Text.splitOnce_eq_some.1 h₂
    exact ⟨by simp, ha, hb⟩
  · rintro ⟨rfl, ha, hb⟩
    have h₁ : Text.splitOnce '.' (pfx ++ '.' :: payload ++ '.' :: signature) =
        some (pfx, payload ++ '.' :: signature) := Text.splitOnce_eq_some.2 ⟨by simp, ha⟩
    have h₂ : Text.splitOnce '.' (payload ++ '.' :: signature) = some (payload, signature) :=
      Text.splitOnce_eq_some.2 ⟨rfl, hb⟩
    rw [threeParts, h₁]
    show (Text.splitOnce '.' (payload ++ '.' :: signature) >>= _) = _
    rw [h₂]; rfl

theorem signedSession_eq_ok (h : signedSession c key token = .ok session) : SignedWith c key token session := by
  unfold signedSession at h
  split at h
  · cases h
  · next pfx payload signature hparts =>
    split at h
    · cases h
    · next hne =>
      rw [not_or, not_or, not_not] at hne
      obtain ⟨rfl, -, -⟩ := hne
      split at h
      · cases h
      · next sig hsig =>
        split at h
        · cases h
        · next hmac =>
          split at h
          · cases h
          · next session' hsession =>
            cases h
            obtain ⟨rfl, -, hdot⟩ := threeParts_eq_some.1 hparts
            rw [not_not] at hmac
            subst hmac
            exact ⟨payload, signature, rfl, hdot, hsig, hsession⟩

/-- Two sessions signed in one token are one. -/
theorem SignedWith.unique {session' : PortSession} (h : SignedWith c key token session)
    (h' : SignedWith c key token session') : session = session' := by
  obtain ⟨p, s, rfl, hp, -, hsession⟩ := h
  obtain ⟨p', s', he, hp', -, hsession'⟩ := h'
  have hparts : threeParts (signingInput p ++ '.' :: s) = some (tokenPrefix, p, s) :=
    threeParts_eq_some.2 ⟨rfl, by decide, hp⟩
  have hparts' : threeParts (signingInput p ++ '.' :: s) = some (tokenPrefix, p', s') :=
    threeParts_eq_some.2 ⟨he, by decide, hp'⟩
  cases hparts.symm.trans hparts'
  cases hsession.symm.trans hsession'
  rfl

/-- A verified token is signed with the key, for this workspace and an app port, and within its time. -/
structure Verified (c : Crates) (key : Key) (privatePorts : List Port) (token : Text) (workspaceId : String)
    (now maxAge : Nat) (session : PortSession) : Prop where
  signed : SignedWith c key token session
  unexpired : now < session.exp
  age : session.iat ≤ session.exp ∧ session.exp - session.iat ≤ maxAge
  workspace : session.ws = workspaceId
  port : session.port ≠ 0 ∧ isInfraPort privatePorts session.port = false

theorem verify_eq_ok {privatePorts : List Port} {workspaceId : String} {now maxAge : Nat}
    (h : verify c key privatePorts token workspaceId now maxAge = .ok session) :
    Verified c key privatePorts token workspaceId now maxAge session := by
  unfold verify at h
  split at h
  · cases h
  · next session' hsigned =>
    split at h
    · cases h
    · next htime =>
      split at h
      · cases h
      · next hws =>
        split at h
        · cases h
        · next hport =>
          cases h
          rw [not_or, Bool.not_eq_true] at hport
          exact ⟨signedSession_eq_ok hsigned, by omega, by omega, not_not.1 hws, hport⟩

/-! ## Signed, then verified -/

variable {privatePorts : List Port} {workspaceId : String} {now maxAge : Nat}

theorem dot_notMem_encode (bytes : List UInt8) : '.' ∉ Base64Url.encode bytes :=
  Base64Url.notMem_encode (by decide) bytes

theorem encode_ne_nil {bytes : List UInt8} (h : bytes ≠ []) : Base64Url.encode bytes ≠ [] := by
  intro hnil
  have hlt := Base64Url.lt_length_encode h
  rw [hnil, List.length_nil] at hlt
  omega

theorem toVec_ne_nil (session : PortSession) : session.toVec ≠ [] := by
  intro hnil
  have hobject := Json.two_le_length_object [("ws".toList, Json.string session.ws.toList),
    ("port".toList, Json.number session.port), ("sub".toList, Json.string session.sub.toList),
    ("iat".toList, Json.number session.iat), ("exp".toList, Json.number session.exp),
    ("jti".toList, Json.string session.jti.toList)]
  have hutf8 := Text.length_le_utf8 (Json.object [("ws".toList, Json.string session.ws.toList),
    ("port".toList, Json.number session.port), ("sub".toList, Json.string session.sub.toList),
    ("iat".toList, Json.number session.iat), ("exp".toList, Json.number session.exp),
    ("jti".toList, Json.string session.jti.toList)])
  have hlength : session.toVec.length = 0 := by rw [hnil]; rfl
  rw [PortSession.toVec] at hlength
  omega

/-- The signature of a signed session matches, and its payload is read back; an HMAC is never empty. -/
theorem signedSession_sign (hmac : c.mac key (signingInput (Base64Url.encode session.toVec)).utf8 ≠ [])
    (hreads : c.fromSlice session.toVec = some session) : signedSession c key (sign c key session) = .ok session := by
  have hparts : threeParts (sign c key session) = some (tokenPrefix, Base64Url.encode session.toVec,
      Base64Url.encode (c.mac key (signingInput (Base64Url.encode session.toVec)).utf8)) :=
    threeParts_eq_some.2 ⟨rfl, by decide, dot_notMem_encode _⟩
  have hpayload := encode_ne_nil (toVec_ne_nil session)
  have hsignature := encode_ne_nil hmac
  simp only [signedSession, hparts, ne_eq, not_true_eq_false, hpayload, hsignature, or_self, if_false,
    Base64Url.decode_encode]
  rw [if_neg (by exact not_not.2 rfl), Option.bind_some, hreads]

/-- What the expected workspace, the allowed age and the clock ask of a session. -/
structure PortSession.Valid (session : PortSession) (privatePorts : List Port) (workspaceId : String)
    (now maxAge : Nat) : Prop where
  unexpired : now < session.exp
  issued : session.iat ≤ session.exp
  age : session.exp - session.iat ≤ maxAge
  workspace : session.ws = workspaceId
  port : session.port ≠ 0
  app : isInfraPort privatePorts session.port = false

/-- Once the signature matches, the checks decide. -/
theorem verify_of_signed (h : signedSession c key token = .ok session) :
    (session.Valid privatePorts workspaceId now maxAge →
      verify c key privatePorts token workspaceId now maxAge = .ok session) ∧
    (¬ session.Valid privatePorts workspaceId now maxAge →
      ∃ e, verify c key privatePorts token workspaceId now maxAge = .error e) := by
  simp only [verify, h]
  constructor
  · intro hvalid
    have htime : ¬ (session.exp ≤ now ∨ session.exp < session.iat ∨ maxAge < session.exp - session.iat) := by
      have hnow := hvalid.unexpired
      have hiat := hvalid.issued
      have hage := hvalid.age
      omega
    rw [if_neg htime, if_neg (not_not.2 hvalid.workspace), if_neg]
    rintro (hzero | hinfra)
    · exact hvalid.port hzero
    · exact absurd (hvalid.app.symm.trans hinfra) Bool.false_ne_true
  · intro hvalid
    split
    · exact ⟨_, rfl⟩
    · rename_i htime
      split
      · exact ⟨_, rfl⟩
      · rename_i hworkspace
        split
        · exact ⟨_, rfl⟩
        · rename_i hport
          obtain ⟨hzero, hinfra⟩ := not_or.1 hport
          exact absurd ⟨by omega, by omega, by omega, not_not.1 hworkspace, hzero, Bool.eq_false_iff.2 hinfra⟩
            hvalid

/-- A signed token is written in plain characters. -/
theorem sign_plain (c : Crates) (key : Key) (session : PortSession) :
    ∀ d ∈ sign c key session, Text.isAscii d = true ∧ d ≠ '%' ∧ d ≠ '&' := by
  have hall : ∀ d ∈ 'v' :: '1' :: '.' :: Base64Url.alphabet, Text.isAscii d = true ∧ d ≠ '%' ∧ d ≠ '&' :=
    Text.forall_mem_of_all (by decide)
  intro d hd
  refine hall d ?_
  simp only [sign, signingInput, tokenPrefix, List.cons_append, List.nil_append, List.mem_cons, List.mem_append] at hd ⊢
  rcases hd with h | h | h | h | h | h
  · exact .inl h
  · exact .inr (.inl h)
  · exact .inr (.inr (.inl h))
  · exact .inr (.inr (.inr (Base64Url.encode_mem _ d h)))
  · exact .inr (.inr (.inl h))
  · exact .inr (.inr (.inr (Base64Url.encode_mem _ d h)))

end Zedspaces.Supervisor
