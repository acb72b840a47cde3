/-
Unpadded base64url: three bytes as four characters of the URL-safe alphabet. The decoder is strict: no
padding, no foreign character, no length that leaves a single character, and the bits a short group leaves
over are zero. Decoding undoes encoding (`decode_encode`) and what decodes is the one text of its bytes
(`encode_decode`); an encoded text is longer than its bytes and written in the alphabet alone.
-/
import Mathlib.Data.List.Nodup
import Mathlib.Tactic.Common

namespace Zedspaces.Lib.Base64Url

def alphabet : List Char :=
  ['A', 'B', 'C', 'D', 'E', 'F', 'G', 'H', 'I', 'J', 'K', 'L', 'M', 'N', 'O', 'P', 'Q', 'R', 'S', 'T', 'U', 'V',
   'W', 'X', 'Y', 'Z', 'a', 'b', 'c', 'd', 'e', 'f', 'g', 'h', 'i', 'j', 'k', 'l', 'm', 'n', 'o', 'p', 'q', 'r',
   's', 't', 'u', 'v', 'w', 'x', 'y', 'z', '0', '1', '2', '3', '4', '5', '6', '7', '8', '9', '-', '_']

/-- The character of six bits. -/
def digit (n : Nat) : Char := alphabet.getD n '_'

def value (c : Char) : Option Nat := alphabet.findIdx? (· == c)

def encode : List UInt8 → List Char
  | [] => []
  | [a] => [digit (a.toNat / 4), digit (a.toNat % 4 * 16)]
  | [a, b] => [digit (a.toNat / 4), digit (a.toNat % 4 * 16 + b.toNat / 16), digit (b.toNat % 16 * 4)]
  | a :: b :: c :: rest =>
    digit (a.toNat / 4) :: digit (a.toNat % 4 * 16 + b.toNat / 16) :: digit (b.toNat % 16 * 4 + c.toNat / 64) ::
      digit (c.toNat % 64) :: encode rest

def decode : List Char → Option (List UInt8)
  | [] => some []
  | [_] => none
  | [w, x] => do
    let w ← value w
    let x ← value x
    if x % 16 = 0 then some [UInt8.ofNat (w * 4 + x / 16)] else none
  | [w, x, y] => do
    let w ← value w
    let x ← value x
    let y ← value y
    if y % 4 = 0 then some [UInt8.ofNat (w * 4 + x / 16), UInt8.ofNat (x % 16 * 16 + y / 4)] else none
  | w :: x :: y :: z :: rest => do
    let w ← value w
    let x ← value x
    let y ← value y
    let z ← value z
    let bytes ← decode rest
    some (UInt8.ofNat (w * 4 + x / 16) :: UInt8.ofNat (x % 16 * 16 + y / 4) :: UInt8.ofNat (y % 4 * 64 + z) :: bytes)

theorem nodup_alphabet : alphabet.Nodup := List.Nodup.of_map Char.toNat (by decide)

theorem digit_eq_getElem {n : Nat} (h : n < alphabet.length) : digit n = alphabet[n] := by
  rw [digit, List.getD_eq_getElem?_getD, List.getElem?_eq_getElem h, Option.getD_some]

theorem value_digit {n : Nat} (h : n < 64) : value (digit n) = some n := by
  have hn : n < alphabet.length := h
  refine List.findIdx?_eq_some_iff_getElem.2 ⟨hn, beq_iff_eq.2 (digit_eq_getElem hn).symm, fun j hj => ?_⟩
  -- no earlier character is the same
  rw [digit_eq_getElem hn, beq_iff_eq, List.Nodup.getElem_inj_iff nodup_alphabet]
  omega

theorem digit_mem {n : Nat} (h : n < 64) : digit n ∈ alphabet := by
  have hn : n < alphabet.length := h
  rw [digit_eq_getElem hn]
  exact List.getElem_mem hn

/-- Induction on bytes as they are encoded, three at a time. -/
@[elab_as_elim]
theorem threes_induction {motive : List UInt8 → Prop} (nil : motive []) (one : ∀ a, motive [a])
    (two : ∀ a b, motive [a, b]) (three : ∀ a b c rest, motive rest → motive (a :: b :: c :: rest)) :
    ∀ bytes, motive bytes
  | [] => nil
  | [a] => one a
  | [a, b] => two a b
  | a :: b :: c :: rest => three a b c rest (threes_induction nil one two three rest)

theorem encode_one (a : UInt8) : encode [a] = [digit (a.toNat / 4), digit (a.toNat % 4 * 16)] := rfl

theorem encode_two (a b : UInt8) : encode [a, b] =
    [digit (a.toNat / 4), digit (a.toNat % 4 * 16 + b.toNat / 16), digit (b.toNat % 16 * 4)] := rfl

theorem encode_three (a b c : UInt8) (rest : List UInt8) : encode (a :: b :: c :: rest) =
    digit (a.toNat / 4) :: digit (a.toNat % 4 * 16 + b.toNat / 16) :: digit (b.toNat % 16 * 4 + c.toNat / 64) ::
      digit (c.toNat % 64) :: encode rest := rfl

/-- A byte from its two parts. -/
theorem ofNat_parts (a : UInt8) {n : Nat} (h : n = a.toNat) : UInt8.ofNat n = a := by
  rw [h, UInt8.ofNat_toNat]

/-- Decoding an encoded text gives the bytes. -/
theorem decode_encode (bytes : List UInt8) : decode (encode bytes) = some bytes := by
  induction bytes using threes_induction with
  | nil => rfl
  | one a =>
    have ha := a.toNat_lt
    rw [encode_one, decode, value_digit (by omega), value_digit (by omega)]
    show (if _ then _ else _) = _
    rw [if_pos (by omega), ofNat_parts a (by omega)]
  | two a b =>
    have ha := a.toNat_lt
    have hb := b.toNat_lt
    rw [encode_two, decode, value_digit (by omega), value_digit (by omega), value_digit (by omega)]
    show (if _ then _ else _) = _
    rw [if_pos (by omega), ofNat_parts a (by omega), ofNat_parts b (by omega)]
  | three a b c rest ih =>
    have ha := a.toNat_lt
    have hb := b.toNat_lt
    have hc := c.toNat_lt
    rw [encode_three, decode, value_digit (by omega), value_digit (by omega), value_digit (by omega),
      value_digit (by omega), ih]
    show some _ = _
    rw [ofNat_parts a (by omega), ofNat_parts b (by omega), ofNat_parts c (by omega)]

theorem value_eq_some {c : Char} {n : Nat} (h : value c = some n) : n < 64 ∧ digit n = c := by
  obtain ⟨hn, hc, -⟩ := List.findIdx?_eq_some_iff_getElem.1 h
  exact ⟨hn, (digit_eq_getElem hn).trans (eq_of_beq hc)⟩

/-- The decoder accepts no second text for the same bytes. -/
theorem encode_decode {t : List Char} {bytes : List UInt8} (hdec : decode t = some bytes) : encode bytes = t := by
  have hbyte : ∀ n : Nat, n < 256 → (UInt8.ofNat n).toNat = n := by
    intro n hn
    rw [UInt8.toNat_ofNat']
    omega
  induction t using decode.induct generalizing bytes with
  | case1 => cases hdec; rfl
  | case2 c => cases hdec
  | case3 w x =>
    obtain ⟨w', hw, h⟩ := Option.bind_eq_some_iff.1 hdec
    obtain ⟨x', hx, h⟩ := Option.bind_eq_some_iff.1 h
    obtain ⟨hx0, hb⟩ := Option.ite_none_right_eq_some.1 h
    obtain ⟨hwlt, rfl⟩ := value_eq_some hw
    obtain ⟨hxlt, rfl⟩ := value_eq_some hx
    cases hb
    rw [encode_one, hbyte _ (by omega), show (w' * 4 + x' / 16) / 4 = w' by omega,
      show (w' * 4 + x' / 16) % 4 * 16 = x' by omega]
  | case4 w x y =>
    obtain ⟨w', hw, h⟩ := Option.bind_eq_some_iff.1 hdec
    obtain ⟨x', hx, h⟩ := Option.bind_eq_some_iff.1 h
    obtain ⟨y', hy, h⟩ := Option.bind_eq_some_iff.1 h
    obtain ⟨hy0, hb⟩ := Option.ite_none_right_eq_some.1 h
    obtain ⟨hwlt, rfl⟩ := value_eq_some hw
    obtain ⟨hxlt, rfl⟩ := value_eq_some hx
    obtain ⟨hylt, rfl⟩ := value_eq_some hy
    cases hb
    rw [encode_two, hbyte _ (by omega), hbyte _ (by omega), show (w' * 4 + x' / 16) / 4 = w' by omega,
      show (w' * 4 + x' / 16) % 4 * 16 + (x' % 16 * 16 + y' / 4) / 16 = x' by omega,
      show (x' % 16 * 16 + y' / 4) % 16 * 4 = y' by omega]
  | case5 w x y z rest ih =>
    obtain ⟨w', hw, h⟩ := Option.bind_eq_some_iff.1 hdec
    obtain ⟨x', hx, h⟩ := Option.bind_eq_some_iff.1 h
    obtain ⟨y', hy, h⟩ := Option.bind_eq_some_iff.1 h
    obtain ⟨z', hz, h⟩ := Option.bind_eq_some_iff.1 h
    obtain ⟨bytes', hrest, hb⟩ := Option.bind_eq_some_iff.1 h
    obtain ⟨hwlt, rfl⟩ := value_eq_some hw
    obtain ⟨hxlt, rfl⟩ := value_eq_some hx
    obtain ⟨hylt, rfl⟩ := value_eq_some hy
    obtain ⟨hzlt, rfl⟩ := value_eq_some hz
    cases hb
    rw [encode_three, hbyte _ (by omega), hbyte _ (by omega), hbyte _ (by omega), ih hrest,
      show (w' * 4 + x' / 16) / 4 = w' by omega,
      show (w' * 4 + x' / 16) % 4 * 16 + (x' % 16 * 16 + y' / 4) / 16 = x' by omega,
      show (x' % 16 * 16 + y' / 4) % 16 * 4 + (y' % 4 * 64 + z') / 64 = y' by omega,
      show (y' % 4 * 64 + z') % 64 = z' by omega]

theorem encode_mem (bytes : List UInt8) : ∀ c ∈ encode bytes, c ∈ alphabet := by
  induction bytes using threes_induction with
  | nil => rintro _ ⟨⟩
  | one a =>
    have ha := a.toNat_lt
    rw [encode_one, List.forall_mem_cons, List.forall_mem_singleton]
    exact ⟨digit_mem (by omega), digit_mem (by omega)⟩
  | two a b =>
    have ha := a.toNat_lt
    have hb := b.toNat_lt
    rw [encode_two, List.forall_mem_cons, List.forall_mem_cons, List.forall_mem_singleton]
    exact ⟨digit_mem (by omega), digit_mem (by omega), digit_mem (by omega)⟩
  | three a b c rest ih =>
    have ha := a.toNat_lt
    have hb := b.toNat_lt
    have hc := c.toNat_lt
    rw [encode_three]
    simp only [List.forall_mem_cons]
    exact ⟨digit_mem (by omega), digit_mem (by omega), digit_mem (by omega), digit_mem (by omega), ih⟩

/-- A character outside the alphabet does not occur in an encoded text. -/
theorem notMem_encode {c : Char} (hc : c ∉ alphabet) (bytes : List UInt8) : c ∉ encode bytes :=
  fun h => hc (encode_mem bytes c h)

/-- Every byte takes more than one character. -/
theorem lt_length_encode {bytes : List UInt8} (h : bytes ≠ []) : bytes.length < (encode bytes).length := by
  have hle : ∀ bytes : List UInt8, bytes.length ≤ (encode bytes).length := by
    intro bytes
    induction bytes using threes_induction with
    | nil => exact Nat.le_refl _
    | one a => simp [encode_one]
    | two a b => simp [encode_two]
    | three a b c rest ih => simp only [encode_three, List.length_cons]; omega
  match bytes with
  | [a] => simp [encode_one]
  | [a, b] => simp [encode_two]
  | a :: b :: c :: rest =>
    have := hle rest
    simp only [encode_three, List.length_cons]
    omega

end Zedspaces.Lib.Base64Url
