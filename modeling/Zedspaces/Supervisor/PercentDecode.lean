/-
The proxy's percent decoding. It reads what either encoder writes (`percentDecode_of_escaped`). The two digits of an
escape are read as a number, and a number may have a sign: `%+5` is decoded too. So the text is read with exactly its
escapes replaced if no `%` in it is followed by a plus sign and a digit (`percentDecode_eq`).
-/
import Zedspaces.Lib.Utf8
import Zedspaces.Supervisor.Proxy

namespace Zedspaces.Supervisor

open Lib

variable {a high low b byte : UInt8} {bytes tail : List UInt8} {p : Option Text.Pending}

/-! ## Escapes -/

/-- The byte that two hexadecimal digits denote. -/
def hexByte (high low : UInt8) : Option UInt8 := do
  let h ← hexDigit high
  let l ← hexDigit low
  some (UInt8.ofNat (h * 16 + l))

/-- The bytes with every `%` and two hexadecimal digits replaced by the byte they denote. -/
def replaceEscapes : List UInt8 → List UInt8
  | a :: high :: low :: tail => match if a = 0x25 then hexByte high low else none with
    | some byte => byte :: replaceEscapes tail
    | none => a :: replaceEscapes (high :: low :: tail)
  | short => short

/-- A `%`, a plus sign and a hexadecimal digit. -/
def HasPlusEscape (bytes : List UInt8) : Prop := ∃ low, (hexDigit low).isSome ∧ [0x25, 0x2B, low] <:+: bytes

theorem hexByte_plus (low : UInt8) : hexByte 0x2B low = none := rfl

/-- Without a sign the number is read from its two digits. -/
theorem fromStrRadix16_of_ne (h : high ≠ 0x2B) : fromStrRadix16 high low = hexByte high low := if_neg h

theorem fromStrRadix16_plus (low : UInt8) : fromStrRadix16 0x2B low = (hexDigit low).map UInt8.ofNat := if_pos rfl

theorem hexByte_eq_some (h : hexByte high low = some byte) : (hexDigit high).isSome ∧ (hexDigit low).isSome := by
  obtain ⟨x, hx, h⟩ := Option.bind_eq_some_iff.1 h
  obtain ⟨y, hy, -⟩ := Option.bind_eq_some_iff.1 h
  rw [hx, hy]
  exact ⟨rfl, rfl⟩

theorem hexDigit_lt {n : Nat} (h : hexDigit b = some n) : n < 16 := by
  unfold hexDigit at h
  split at h
  · next hb =>
    cases h
    have := UInt8.le_iff_toNat_le.1 hb.2
    simp only [UInt8.reduceToNat] at this
    omega
  · split at h
    · next hb =>
      cases h
      have := UInt8.le_iff_toNat_le.1 hb.2
      simp only [UInt8.reduceToNat] at this
      omega
    · split at h
      · next hb =>
        cases h
        have := UInt8.le_iff_toNat_le.1 hb.2
        simp only [UInt8.reduceToNat] at this
        omega
      · cases h

/-- A digit is an ASCII byte, neither `%` nor a plus sign. -/
theorem hexDigit_isSome (h : (hexDigit b).isSome) : b.toNat < 0x80 ∧ b ≠ 0x25 ∧ b ≠ 0x2B := by
  refine ⟨?_, ?_, ?_⟩
  · by_contra hge
    have hnone : hexDigit b = none := by
      unfold hexDigit
      simp only [UInt8.le_iff_toNat_le, UInt8.reduceToNat]
      rw [if_neg (by omega), if_neg (by omega), if_neg (by omega)]
    rw [hnone] at h
    cases h
  · rintro rfl
    cases h
  · rintro rfl
    cases h

theorem replaceEscapes_cons (a high low : UInt8) (tail : List UInt8) : replaceEscapes (a :: high :: low :: tail) =
    (if a = 0x25 then hexByte high low else none).elim (a :: replaceEscapes (high :: low :: tail))
      (· :: replaceEscapes tail) := by
  rw [replaceEscapes]
  cases if a = 0x25 then hexByte high low else none <;> rfl

theorem replaceEscapes_of_hexByte (h : hexByte high low = some byte) (tail : List UInt8) :
    replaceEscapes (0x25 :: high :: low :: tail) = byte :: replaceEscapes tail := by
  rw [replaceEscapes_cons, if_pos rfl, h, Option.elim_some]

/-- A `%` that begins no escape stays. -/
theorem replaceEscapes_of_none (h : (if a = 0x25 then hexByte high low else none) = none) (tail : List UInt8) :
    replaceEscapes (a :: high :: low :: tail) = a :: replaceEscapes (high :: low :: tail) := by
  rw [replaceEscapes_cons, h, Option.elim_none]

theorem replaceEscapes_of_ne (h : a ≠ 0x25) (tail : List UInt8) :
    replaceEscapes (a :: tail) = a :: replaceEscapes tail := by
  rcases tail with _ | ⟨high, _ | ⟨low, tail⟩⟩
  · rfl
  · rfl
  · exact replaceEscapes_of_none (if_neg h) tail

theorem hasPlusEscape_cons : HasPlusEscape (a :: tail) ↔
    (∃ low rest, (hexDigit low).isSome ∧ a = 0x25 ∧ tail = 0x2B :: low :: rest) ∨ HasPlusEscape tail := by
  simp only [HasPlusEscape, List.infix_cons_iff, List.cons_prefix_cons]
  constructor
  · rintro ⟨low, hlow, ⟨ha, rest, hrest⟩ | h⟩
    · exact .inl ⟨low, rest, hlow, ha.symm, hrest.symm⟩
    · exact .inr ⟨low, hlow, h⟩
  · rintro (⟨low, rest, hlow, ha, hrest⟩ | ⟨low, hlow, h⟩)
    · exact ⟨low, hlow, .inl ⟨ha.symm, rest, hrest.symm⟩⟩
    · exact ⟨low, hlow, .inr h⟩

/-- No escape with a sign begins inside an escape. -/
theorem hasPlusEscape_of_hexByte (h : hexByte high low = some byte) (hplus : HasPlusEscape (a :: high :: low :: tail)) :
    HasPlusEscape tail := by
  obtain ⟨hhigh, hlow⟩ := hexByte_eq_some h
  rcases hasPlusEscape_cons.1 hplus with ⟨_, _, -, -, he⟩ | hplus
  · exact absurd (List.cons_eq_cons.1 he).1 (hexDigit_isSome hhigh).2.2
  rcases hasPlusEscape_cons.1 hplus with ⟨_, _, -, he, -⟩ | hplus
  · exact absurd he (hexDigit_isSome hhigh).2.1
  rcases hasPlusEscape_cons.1 hplus with ⟨_, _, -, he, -⟩ | hplus
  · exact absurd he (hexDigit_isSome hlow).2.1
  · exact hplus

/-! ## What is decoded -/

theorem percentDecodeBytes_eq (h : ¬ HasPlusEscape bytes) : percentDecodeBytes bytes = replaceEscapes bytes := by
  fun_induction percentDecodeBytes bytes with
  | case1 a high low tail byte hdecoded ih =>
    obtain ⟨rfl, hbyte⟩ := Option.ite_none_right_eq_some.1 hdecoded
    by_cases hhigh : high = 0x2B
    · subst hhigh
      rw [fromStrRadix16_plus, Option.map_eq_some_iff] at hbyte
      obtain ⟨n, hn, -⟩ := hbyte
      exact absurd (hasPlusEscape_cons.2 (.inl ⟨low, tail, by rw [hn]; rfl, rfl, rfl⟩)) h
    · rw [fromStrRadix16_of_ne hhigh] at hbyte
      rw [replaceEscapes_of_hexByte hbyte, ih]
      intro htail
      exact h (hasPlusEscape_cons.2 (.inr (hasPlusEscape_cons.2 (.inr (hasPlusEscape_cons.2 (.inr htail))))))
  | case2 a high low tail hnone ih =>
    rw [ih fun htail => h (hasPlusEscape_cons.2 (.inr htail)), replaceEscapes_of_none ?_]
    by_cases hhigh : high = 0x2B
    · rw [hhigh, hexByte_plus, ite_self]
    · rwa [fromStrRadix16_of_ne hhigh] at hnone
  | case3 short hshort =>
    rcases short with _ | ⟨_, _ | ⟨_, _ | ⟨_, _⟩⟩⟩
    · rfl
    · rfl
    · rfl
    · exact absurd rfl (hshort _ _ _ _)

/-- An escape with a sign makes the text shorter by two characters. -/
theorem length_percentDecodeBytes (hp : Text.TakesTail p) (bytes : List UInt8) :
    (Text.utf8Lossy p (percentDecodeBytes bytes)).length ≤ (Text.utf8Lossy p (replaceEscapes bytes)).length ∧
      (HasPlusEscape bytes →
        (Text.utf8Lossy p (percentDecodeBytes bytes)).length < (Text.utf8Lossy p (replaceEscapes bytes)).length) := by
  fun_induction percentDecodeBytes bytes generalizing p with
  | case1 a high low tail byte hdecoded ih =>
    obtain ⟨rfl, hbyte⟩ := Option.ite_none_right_eq_some.1 hdecoded
    by_cases hhigh : high = 0x2B
    · -- one byte is decoded where three stand
      subst hhigh
      rw [fromStrRadix16_plus, Option.map_eq_some_iff] at hbyte
      obtain ⟨n, hn, rfl⟩ := hbyte
      obtain ⟨hlow, hpercent, -⟩ := hexDigit_isSome (b := low) (by rw [hn]; rfl)
      have hbyte : (UInt8.ofNat n).toNat < 0x80 := by
        have := hexDigit_lt hn
        rw [UInt8.toNat_ofNat']
        omega
      have hspec : replaceEscapes (0x25 :: 0x2B :: low :: tail) = 0x25 :: 0x2B :: low :: replaceEscapes tail := by
        rw [replaceEscapes_of_none (by rw [hexByte_plus, ite_self]), replaceEscapes_of_ne (by decide),
          replaceEscapes_of_ne hpercent]
      have htail := (ih Text.takesTail_none).1
      rw [hspec, Text.utf8Lossy_ascii hp hbyte, Text.utf8Lossy_ascii hp (by decide),
        Text.utf8Lossy_ascii Text.takesTail_none (by decide), Text.utf8Lossy_ascii Text.takesTail_none hlow]
      simp only [List.length_append, List.length_cons]
      exact ⟨by omega, fun _ => by omega⟩
    · rw [fromStrRadix16_of_ne hhigh] at hbyte
      obtain ⟨hle, hlt⟩ := ih (Text.takesTail_lossyStep p byte.toNat)
      rw [replaceEscapes_of_hexByte hbyte, Text.utf8Lossy_cons, Text.utf8Lossy_cons, List.length_append,
        List.length_append]
      refine ⟨by omega, fun hplus => ?_⟩
      have := hlt (hasPlusEscape_of_hexByte hbyte hplus)
      omega
  | case2 a high low tail hnone ih =>
    have hspec : replaceEscapes (a :: high :: low :: tail) = a :: replaceEscapes (high :: low :: tail) := by
      refine replaceEscapes_of_none ?_ tail
      by_cases hhigh : high = 0x2B
      · rw [hhigh, hexByte_plus, ite_self]
      · rwa [fromStrRadix16_of_ne hhigh] at hnone
    obtain ⟨hle, hlt⟩ := ih (Text.takesTail_lossyStep p a.toNat)
    rw [hspec, Text.utf8Lossy_cons, Text.utf8Lossy_cons, List.length_append, List.length_append]
    refine ⟨by omega, fun hplus => ?_⟩
    rcases hasPlusEscape_cons.1 hplus with ⟨x, rest, hx, rfl, he⟩ | hplus
    · -- the escape would have been decoded
      cases he
      rw [if_pos rfl, fromStrRadix16_plus, Option.map_eq_none_iff] at hnone
      rw [hnone] at hx
      cases hx
    · have := hlt hplus
      omega
  | case3 short hshort =>
    have hspec : replaceEscapes short = short := by
      rcases short with _ | ⟨_, _ | ⟨_, _ | ⟨_, _⟩⟩⟩
      · rfl
      · rfl
      · rfl
      · exact absurd rfl (hshort _ _ _ _)
    rw [hspec]
    refine ⟨Nat.le_refl _, ?_⟩
    rintro ⟨low, -, hin⟩
    have hlength := hin.length_le
    rcases short with _ | ⟨_, _ | ⟨_, _ | ⟨_, _⟩⟩⟩
    · simp at hlength
    · simp at hlength
    · simp at hlength
    · exact absurd rfl (hshort _ _ _ _)

/-- A value is read with exactly its escapes replaced if no `%` is followed by a plus sign and a digit. -/
theorem percentDecode_eq (value : Text) :
    percentDecode value = Text.utf8Lossy none (replaceEscapes value.utf8) ↔ ¬ HasPlusEscape value.utf8 := by
  constructor
  · intro heq hplus
    have hlt := (length_percentDecodeBytes Text.takesTail_none value.utf8).2 hplus
    rw [← heq] at hlt
    exact absurd hlt (Nat.lt_irrefl _)
  · intro hplus
    rw [percentDecode, percentDecodeBytes_eq hplus]

/-! ## What an encoder writes -/

/-- An encoding of the bytes: each as an escape, or as it stands if it is no `%`. -/
inductive Escaped : List UInt8 → List UInt8 → Prop
  | nil : Escaped [] []
  | keep {b : UInt8} {bytes written : List UInt8} : b ≠ 0x25 → Escaped bytes written → Escaped (b :: bytes) (b :: written)
  | escape {b high low : UInt8} {bytes written : List UInt8} : hexByte high low = some b → Escaped bytes written →
    Escaped (b :: bytes) (0x25 :: high :: low :: written)

theorem Escaped.append {bytes' written written' : List UInt8} (h : Escaped bytes written) (h' : Escaped bytes' written') :
    Escaped (bytes ++ bytes') (written ++ written') := by
  induction h with
  | nil => exact h'
  | keep hb _ ih => exact .keep hb ih
  | escape hb _ ih => exact .escape hb ih

theorem percentDecodeBytes_of_ne (h : a ≠ 0x25) (tail : List UInt8) :
    percentDecodeBytes (a :: tail) = a :: percentDecodeBytes tail := by
  rcases tail with _ | ⟨high, _ | ⟨low, tail⟩⟩
  · rfl
  · rfl
  · rw [percentDecodeBytes, if_neg h]

theorem percentDecodeBytes_of_escaped {written : List UInt8} (h : Escaped bytes written) :
    percentDecodeBytes written = bytes := by
  induction h with
  | nil => rfl
  | keep hb _ ih => rw [percentDecodeBytes_of_ne hb, ih]
  | @escape b high low bytes written hb h ih =>
    have hhigh : high ≠ 0x2B := (hexDigit_isSome (hexByte_eq_some hb).1).2.2
    rw [percentDecodeBytes, if_pos rfl, fromStrRadix16_of_ne hhigh, hb, ih]

/-- A text is read back from any encoding of its bytes. -/
theorem percentDecode_of_escaped {value written : Text} (h : Escaped value.utf8 written.utf8) :
    percentDecode written = value := by
  rw [percentDecode, percentDecodeBytes_of_escaped h, Text.utf8Lossy_encode]

/-- An ASCII character that is no `%` is read as it stands. -/
theorem percentDecode_cons {c : Char} (hascii : Text.isAscii c = true) (hne : c ≠ '%') (value : Text) :
    percentDecode (c :: value) = c :: percentDecode value := by
  have hcode := Text.toNat_byte hascii
  have hlt : c.toNat < 0x80 := of_decide_eq_true hascii
  have hbyte : UInt8.ofNat c.toNat ≠ 0x25 := by
    intro he
    rw [he] at hcode
    exact hne (Char.toNat_inj.1 hcode.symm)
  rw [percentDecode, Text.utf8_cons_ascii hascii, percentDecodeBytes_of_ne hbyte,
    Text.utf8Lossy_ascii Text.takesTail_none (by omega), hcode, Char.ofNat_toNat]
  rfl

/-- The escape of a byte in upper-case digits. -/
def escapeByte (b : UInt8) : Text :=
  ['%', Text.upperHexDigit (b.toNat / 16), Text.upperHexDigit (b.toNat % 16)]

theorem upperHexDigit_spec : ∀ n, n < 16 → Text.isAscii (Text.upperHexDigit n) = true ∧
    hexDigit (UInt8.ofNat (Text.upperHexDigit n).toNat) = some n := by decide

theorem escaped_escapeByte (b : UInt8) : Escaped [b] (escapeByte b).utf8 := by
  have hlt : b.toNat < 256 := b.toNat_lt
  obtain ⟨hascii, hhigh⟩ := upperHexDigit_spec (b.toNat / 16) (by omega)
  obtain ⟨hascii', hlow⟩ := upperHexDigit_spec (b.toNat % 16) (by omega)
  rw [escapeByte, Text.utf8_cons_ascii (by decide), Text.utf8_cons_ascii hascii, Text.utf8_cons_ascii hascii']
  refine .escape ?_ .nil
  rw [hexByte, hhigh, hlow]
  show some (UInt8.ofNat (b.toNat / 16 * 16 + b.toNat % 16)) = some b
  rw [Nat.div_add_mod', UInt8.ofNat_toNat]

end Zedspaces.Supervisor
