/-
The token codec in both directions. A signed session verifies exactly when it is within its time, for this workspace
and for an app port (`verify_sign`); a text that verifies is the one spelling of its token (`verify_spelling`). The
age of a token is a subtraction of two numbers a token carries, so it is evaluated here as Rust evaluates it, where an
underflow panics.
-/
import Zedspaces.Supervisor.PortAccess

namespace Zedspaces.Supervisor

open Lib

variable {c : Crates} {key : Key} {token : Text} {session : PortSession} {privatePorts : List Port}
variable {workspaceId : String} {now maxAge : Nat}

/-! ## The check of the time -/

/-- A subtraction of unsigned integers, which panics when it underflows. -/
def checkedSub (a b : Nat) : Option Nat := if b ≤ a then some (a - b) else none

/-- `exp <= now || exp < iat || exp - iat > max_age`, from left to right. -/
def PortSession.expired (session : PortSession) (now maxAge : Nat) : Option Bool :=
  if session.exp ≤ now then some true
  else if session.exp < session.iat then some true
  else (checkedSub session.exp session.iat).map fun age => decide (maxAge < age)

/-- The check never underflows, and refuses what `verify` refuses. -/
theorem PortSession.expired_eq (session : PortSession) (now maxAge : Nat) :
    session.expired now maxAge =
      some (decide (session.exp ≤ now ∨ session.exp < session.iat ∨ maxAge < session.exp - session.iat)) := by
  unfold expired
  split
  · simp [*]
  · split
    · simp [*]
    · rename_i hnow hiat
      rw [checkedSub, if_pos (by omega), Option.map_some]
      simp [hnow, hiat]

/-! ## One spelling -/

/-- A text that carries a session is spelled in one way: the signature is the encoding of its bytes. -/
theorem SignedWith.spelling (h : SignedWith c key token session) : ∃ payload,
    token = signingInput payload ++ '.' :: Base64Url.encode (c.mac key (signingInput payload).utf8) ∧
      (Base64Url.decode payload).bind c.fromSlice = some session := by
  obtain ⟨payload, signature, rfl, -, hsignature, hsession⟩ := h
  refine ⟨payload, ?_, hsession⟩
  rw [Base64Url.encode_decode hsignature]

/-- Signed and then verified, a session comes back exactly when it is valid, and is refused otherwise; the age is
never an underflow; and every text that verifies is the one spelling of a payload that decodes to the session. -/
theorem port_token_codec (c : Crates) (key : Key) (privatePorts : List Port) (session : PortSession)
    (workspaceId : String) (now maxAge : Nat) (hmac : ∀ input, (c.mac key input).length = 32)
    (hreads : c.fromSlice session.toVec = some session) :
    (session.Valid privatePorts workspaceId now maxAge →
      verify c key privatePorts (sign c key session) workspaceId now maxAge = .ok session) ∧
    (¬ session.Valid privatePorts workspaceId now maxAge →
      ∃ e, verify c key privatePorts (sign c key session) workspaceId now maxAge = .error e) ∧
    (∀ session : PortSession, session.expired now maxAge =
      some (decide (session.exp ≤ now ∨ session.exp < session.iat ∨ maxAge < session.exp - session.iat))) ∧
    ∀ token accepted, verify c key privatePorts token workspaceId now maxAge = .ok accepted → ∃ payload,
      token = signingInput payload ++ '.' :: Base64Url.encode (c.mac key (signingInput payload).utf8) ∧
        (Base64Url.decode payload).bind c.fromSlice = some accepted := by
  have hne : c.mac key (signingInput (Base64Url.encode session.toVec)).utf8 ≠ [] := by
    rw [← List.length_pos_iff, hmac]
    decide
  have hsigned := signedSession_sign hne hreads
  refine ⟨(verify_of_signed hsigned).1, (verify_of_signed hsigned).2, fun session => session.expired_eq now maxAge,
    fun token accepted haccepted => ?_⟩
  exact (verify_eq_ok haccepted).signed.spelling

/-- The crates of the samples, with an HMAC for every text. -/
def codecCrates : Crates where
  mac key input := if (sampleCrates.mac key input).length = 32 then sampleCrates.mac key input else List.replicate 32 0
  fromSlice := sampleCrates.fromSlice

theorem port_token_codec_sample : verify codecCrates sampleConfig.bootstrap []
    (sign codecCrates sampleConfig.bootstrap sampleToken) "w" 50 100 = .ok sampleToken := by
  refine (port_token_codec codecCrates sampleConfig.bootstrap [] sampleToken "w" 50 100 ?_ (by decide)).1 ?_
  · intro input
    unfold codecCrates
    dsimp only
    split
    · assumption
    · exact List.length_replicate
  · exact ⟨by decide, by decide, by decide, rfl, by decide, by decide⟩

end Zedspaces.Supervisor
