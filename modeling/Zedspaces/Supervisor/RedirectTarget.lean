/-
Where the redirect after a bootstrap leads. Whatever the request's query is, the `Location` is a path of visible ASCII
characters with one slash at its start, so that a browser stays on the slot's origin; and the path that was accepted
is read back out of it (`redirect_stays`).
-/
import Zedspaces.Supervisor.ForwardedHeaders
import Zedspaces.Supervisor.PercentDecode
import Zedspaces.Supervisor.SingleUse

namespace Zedspaces.Supervisor

open Lib

variable {c : Char} {path value : Text}

/-- A reference to a path of the same origin: one slash, which no second slash or backslash follows, and no character
that a browser would drop. -/
structure StaysOnOrigin (location : Text) : Prop where
  visible : ∀ c ∈ location, 0x21 ≤ c.toNat ∧ c.toNat ≤ 0x7E
  path : ∃ rest, location = '/' :: rest ∧ rest.head? ≠ some '/' ∧ rest.head? ≠ some '\\'

/-! ## `encode_location` -/

/-- The bytes that are kept are visible, and neither `%` nor a backslash. -/
theorem locationByte_spec {n : Nat} (h : isAsciiAlphanumeric n = true ∨ n ∈ locationBytes) :
    0x21 ≤ n ∧ n ≤ 0x7E ∧ n ≠ 0x25 ∧ n ≠ 0x5C := by
  rcases h with h | h
  · simp only [isAsciiAlphanumeric, Bool.or_eq_true, Bool.and_eq_true, decide_eq_true_eq] at h
    omega
  · have hmarks : ∀ n ∈ locationBytes, 0x21 ≤ n ∧ n ≤ 0x7E ∧ n ≠ 0x25 ∧ n ≠ 0x5C := by decide
    exact hmarks n h

/-- How one byte of the path is written. -/
def locationByte (byte : UInt8) : Text :=
  if isAsciiAlphanumeric byte.toNat || byte.toNat ∈ locationBytes then [Char.ofNat byte.toNat] else escapeByte byte

theorem encodeLocation_eq (value : Text) : encodeLocation value = value.utf8.flatMap locationByte := rfl

theorem locationByte_mem {byte : UInt8} (h : c ∈ locationByte byte) : 0x21 ≤ c.toNat ∧ c.toNat ≤ 0x7E ∧ c ≠ '\\' := by
  unfold locationByte at h
  split at h
  · next hkeep =>
    rw [Bool.or_eq_true, decide_eq_true_eq] at hkeep
    obtain ⟨hlow, hhigh, -, hslash⟩ := locationByte_spec hkeep
    cases List.mem_singleton.1 h
    have hcode := toNat_charOfByte (Nat.lt_succ_of_le hhigh)
    refine ⟨by omega, by omega, fun he => hslash ?_⟩
    rw [← hcode, he]; rfl
  · have hlt : byte.toNat < 256 := byte.toNat_lt
    have hdigit : ∀ n, n < 16 → 0x21 ≤ (Text.upperHexDigit n).toNat ∧ (Text.upperHexDigit n).toNat ≤ 0x7E ∧
        Text.upperHexDigit n ≠ '\\' := by decide
    simp only [escapeByte, List.mem_cons, List.not_mem_nil, or_false] at h
    rcases h with rfl | rfl | rfl
    · decide
    · exact hdigit _ (by omega)
    · exact hdigit _ (by omega)

theorem escaped_locationByte (byte : UInt8) : Escaped [byte] (locationByte byte).utf8 := by
  unfold locationByte
  split
  · next hkeep =>
    rw [Bool.or_eq_true, decide_eq_true_eq] at hkeep
    obtain ⟨-, hhigh, hpercent, -⟩ := locationByte_spec hkeep
    have hcode := toNat_charOfByte (Nat.lt_succ_of_le hhigh)
    have hascii : Text.isAscii (Char.ofNat byte.toNat) = true := decide_eq_true (by omega)
    rw [Text.utf8_cons_ascii hascii, hcode, UInt8.ofNat_toNat]
    exact .keep (fun he => hpercent (by rw [he]; rfl)) .nil
  · exact escaped_escapeByte byte

theorem escaped_locationBytes (bytes : List UInt8) : Escaped bytes (Text.utf8 (bytes.flatMap locationByte)) := by
  induction bytes with
  | nil => exact .nil
  | cons b bytes ih =>
    rw [List.flatMap_cons, Text.utf8_append]
    exact (escaped_locationByte b).append ih

theorem percentDecode_encodeLocation (value : Text) : percentDecode (encodeLocation value) = value :=
  percentDecode_of_escaped (escaped_locationBytes value.utf8)

/-! ## `safe_next` -/

theorem encodeLocation_slash (value : Text) : encodeLocation ('/' :: value) = '/' :: encodeLocation value := by
  have hslash : locationByte (UInt8.ofNat '/'.toNat) = ['/'] := by decide
  rw [encodeLocation_eq, Text.utf8_cons_ascii (by decide), List.flatMap_cons, hslash]
  rfl

/-- An accepted path is written as one of the same origin. -/
theorem staysOnOrigin_encodeLocation (h : isSameOriginPath path = true) : StaysOnOrigin (encodeLocation path) := by
  simp only [isSameOriginPath, Bool.and_eq_true, Bool.not_eq_true', List.isPrefixOf_iff_prefix,
    ← Bool.not_eq_true] at h
  obtain ⟨⟨⟨⟨rest, rfl⟩, hslashes⟩, -⟩, -⟩ := h
  have hmem : ∀ c ∈ encodeLocation ('/' :: rest), 0x21 ≤ c.toNat ∧ c.toNat ≤ 0x7E ∧ c ≠ '\\' := by
    intro c hc
    obtain ⟨byte, -, hbyte⟩ := List.mem_flatMap.1 hc
    exact locationByte_mem hbyte
  refine ⟨fun c hc => ⟨(hmem c hc).1, (hmem c hc).2.1⟩, encodeLocation rest, encodeLocation_slash rest, ?_, ?_⟩
  · -- a second slash would be read back as one of the path
    intro hhead
    obtain ⟨tail, htail⟩ := List.head?_eq_some_iff.1 hhead
    have hback := percentDecode_encodeLocation rest
    rw [htail, percentDecode_cons (by decide) (by decide)] at hback
    exact hslashes ⟨percentDecode tail, congrArg ('/' :: ·) hback⟩
  · intro hhead
    obtain ⟨tail, htail⟩ := List.head?_eq_some_iff.1 hhead
    refine (hmem '\\' ?_).2.2 rfl
    rw [encodeLocation_slash, htail]
    exact List.mem_cons_of_mem _ (List.mem_cons_self ..)

theorem staysOnOrigin_root : StaysOnOrigin ['/'] :=
  ⟨by decide, [], rfl, by decide, by decide⟩

/-- The root, or what an accepted path is written as. -/
theorem safeNext_eq (next : Option Text) : safeNext next = ['/'] ∨
    ∃ path, next = some path ∧ isSameOriginPath path = true ∧ safeNext next = encodeLocation path := by
  unfold safeNext
  split
  · next path =>
    split
    · next haccepted => exact .inr ⟨path, rfl, haccepted, rfl⟩
    · exact .inl rfl
  · exact .inl rfl

theorem staysOnOrigin_safeNext (next : Option Text) : StaysOnOrigin (safeNext next) := by
  rcases safeNext_eq next with h | ⟨path, -, haccepted, h⟩
  · rw [h]; exact staysOnOrigin_root
  · rw [h]; exact staysOnOrigin_encodeLocation haccepted

/-! ## The route -/

/-- The `Location` lines of a response. -/
def Response.locations (r : Response) : List Text := (r.headers.filter (·.1 = "location")).map Prod.snd

theorem locations_with_other {r : Response} {name : String} (hname : name ≠ "location") :
    (r.with name value).locations = r.locations := by
  unfold Response.with Response.locations
  split
  · simp [hname]
  · rfl

theorem locations_with {r : Response} (h : headerFromStr value = some value) :
    (r.with "location" value).locations = r.locations ++ [value] := by
  unfold Response.with Response.locations
  rw [h]
  simp

section
variable {crates : Crates} {host : Host} {cfg : ProxyConfig} {req : Request} {now : Nat} {jti : String} {st : ProxyState}

theorem locations_cookieResponse (session : PortSession) : (cookieResponse crates cfg req session).locations =
    [safeNext (queryParam (req.query.getD []) "next".toList)] := by
  have hvisible := headerFromStr_eq_some fun c hc =>
    let h := (staysOnOrigin_safeNext (queryParam (req.query.getD []) "next".toList)).visible c hc
    .inl ⟨Nat.le_of_lt h.1, Nat.lt_succ_of_le h.2⟩
  rw [cookieResponse, locations_with_other (by decide), locations_with_other (by decide), locations_with hvisible]
  rfl

theorem locations_authFailure (status : Nat) (code : String) : (authFailure cfg req status code).locations = [] := by
  rw [authFailure, locations_with_other (by decide)]
  split <;> rfl

theorem locations_bootstrapVerify {refused : Response} (h : bootstrapVerify crates host cfg req now = .error refused) :
    refused.locations = [] := by
  unfold bootstrapVerify at h
  split at h
  · rw [← Except.error.inj h]
    rfl
  · split at h
    · rw [← Except.error.inj h, locations_authFailure]
    · split at h
      · rw [← Except.error.inj h, locations_authFailure]
      · cases h

theorem locations_bindSession {session : PortSession} {forwards t : ForwardsState} {refused : Response}
    (h : bindSession cfg req session forwards = (t, some refused)) : refused.locations = [] := by
  unfold bindSession at h
  split at h
  · split at h
    · cases h
    · rw [← Option.some.inj (Prod.mk.inj h).2, locations_authFailure]
  · split at h
    · cases h
    · rw [← Option.some.inj (Prod.mk.inj h).2, locations_authFailure]
    · rw [← Option.some.inj (Prod.mk.inj h).2, locations_authFailure]
    · rw [← Option.some.inj (Prod.mk.inj h).2]
      rfl

theorem locations_bootstrapMint {session : PortSession} {refused : Response}
    (h : (bootstrapMint cfg req now jti session st).2 = .error refused) : refused.locations = [] := by
  unfold bootstrapMint at h
  split at h
  · rw [← Except.error.inj h, locations_authFailure]
  · split at h
    · next hbind =>
      rw [← Except.error.inj h]
      exact locations_bindSession hbind
    · cases h

/-- A bootstrap is redirected to its next path, or refused without a redirect. -/
theorem locations_bootstrapRoute (crates : Crates) (host : Host) (cfg : ProxyConfig) (req : Request) (now : Nat)
    (jti : String) (st : ProxyState) : (bootstrapRoute crates host cfg req now jti st).2.locations = [] ∨
    (bootstrapRoute crates host cfg req now jti st).2.locations =
      [safeNext (queryParam (req.query.getD []) "next".toList)] := by
  unfold bootstrapRoute
  cases hverify : bootstrapVerify crates host cfg req now with
  | error refused => exact .inl (locations_bootstrapVerify hverify)
  | ok session =>
    dsimp only
    rcases hmint : bootstrapMint cfg req now jti session st with ⟨shared, refused | cookie⟩
    · exact .inl (locations_bootstrapMint (congrArg Prod.snd hmint))
    · right
      dsimp only
      exact locations_cookieResponse cookie

theorem locations_of_minted {session cookie : PortSession}
    (hverify : bootstrapVerify crates host cfg req now = .ok session)
    (hmint : (bootstrapMint cfg req now jti session st).2 = .ok cookie) :
    (bootstrapRoute crates host cfg req now jti st).2.locations =
      [safeNext (queryParam (req.query.getD []) "next".toList)] := by
  rcases hr : bootstrapMint cfg req now jti session st with ⟨shared, _ | minted⟩
  · rw [hr] at hmint
    cases hmint
  · have hroute : (bootstrapRoute crates host cfg req now jti st).2 = cookieResponse crates cfg req minted := by
      rw [bootstrapRoute, hverify]
      dsimp only
      rw [hr]
    rw [hroute, locations_cookieResponse]

end

/-- Every `Location` the bootstrap route sends stays on the slot's origin, and is the root or decodes to the next path
that was accepted; as does what any accepted path is written as. -/
theorem redirect_stays (crates : Crates) (host : Host) (cfg : ProxyConfig) (req : Request) (now : Nat) (jti : String)
    (st : ProxyState) :
    (∀ location ∈ (bootstrapRoute crates host cfg req now jti st).2.locations, StaysOnOrigin location ∧
      (location = ['/'] ∨ ∃ path, queryParam (req.query.getD []) "next".toList = some path ∧
        isSameOriginPath path = true ∧ percentDecode location = path)) ∧
    ∀ path, isSameOriginPath path = true →
      StaysOnOrigin (encodeLocation path) ∧ percentDecode (encodeLocation path) = path := by
  refine ⟨fun location hlocation => ?_, fun path haccepted =>
    ⟨staysOnOrigin_encodeLocation haccepted, percentDecode_encodeLocation path⟩⟩
  rcases locations_bootstrapRoute crates host cfg req now jti st with h | h
  · rw [h] at hlocation
    exact absurd hlocation List.not_mem_nil
  · rw [h, List.mem_singleton] at hlocation
    subst hlocation
    refine ⟨staysOnOrigin_safeNext _, ?_⟩
    rcases safeNext_eq (queryParam (req.query.getD []) "next".toList) with hroot | ⟨path, hnext, haccepted, he⟩
    · exact .inl hroot
    · exact .inr ⟨path, hnext, haccepted, by rw [he, percentDecode_encodeLocation]⟩

/-- The sample token with a next path that is written in escapes. -/
theorem redirect_stays_sample : StaysOnOrigin "/%C3%A9".toList ∧
    percentDecode (encodeLocation "/100%/é".toList) = "/100%/é".toList := by
  let query := bootstrapParam ++ '=' :: sign sampleCrates sampleConfig.bootstrap sampleToken ++ '&' ::
    "next=/%c3%a9".toList
  let req : Request := { sampleBootstrap sampleToken with query := some query }
  have hpair := notMem_sign sampleCrates sampleConfig.bootstrap sampleToken
  have hverify : bootstrapVerify sampleCrates sampleHost sampleConfig req 60 = .ok sampleToken :=
    bootstrapVerify_of_ok rfl
      (queryParam_sign _ _ _ _ (List.splitOn_append_cons_self_of_not_mem hpair _))
      ((verify_of_signed signedSession_sampleToken).1 ⟨by decide, by decide, by decide, rfl, by decide, rfl⟩)
  have hmint : (bootstrapMint sampleConfig req 60 "c" sampleToken sampleState).2 =
      .ok (cookieOf sampleConfig 60 sampleToken "c") := by decide +zetaReduce
  have hnext : queryParam query "next".toList = some ['/', 'é'] := by
    rw [queryParam_skip hpair bootstrapParam_plain.2 (by decide)]
    decide
  have hlocation : "/%C3%A9".toList ∈
      (bootstrapRoute sampleCrates sampleHost sampleConfig req 60 "c" sampleState).2.locations := by
    rw [locations_of_minted hverify hmint]
    show _ ∈ [safeNext (queryParam query "next".toList)]
    rw [hnext]
    decide
  have h := redirect_stays sampleCrates sampleHost sampleConfig req 60 "c" sampleState
  exact ⟨(h.1 "/%C3%A9".toList hlocation).1, (h.2 "/100%/é".toList (by decide)).2⟩

end Zedspaces.Supervisor
