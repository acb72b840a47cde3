/-
UTF-16 code units, as a language whose strings are arbitrary unit sequences has them: a surrogate without its
partner has no character. The strict reading refuses such a string, the lossy one replaces the unit, and the two
agree where the strict one succeeds (`toTextLossy_of_toText`).
-/
import Zedspaces.Lib.Text

namespace Zedspaces.Lib

abbrev Utf16 := List UInt16

namespace Utf16

def isHigh (u : UInt16) : Bool := 0xD800 ≤ u.toNat && u.toNat < 0xDC00

def isLow (u : UInt16) : Bool := 0xDC00 ≤ u.toNat && u.toNat < 0xE000

/-- The character of a surrogate pair. -/
def pair (u v : UInt16) : Char := Char.ofNat (0x10000 + (u.toNat - 0xD800) * 0x400 + (v.toNat - 0xDC00))

/-- The text of a string without a lone surrogate. -/
def toText : Utf16 → Option Text
  | [] => some []
  | [u] => if isHigh u || isLow u then none else some [Char.ofNat u.toNat]
  | u :: v :: rest =>
    if isHigh u && isLow v then (toText rest).map (pair u v :: ·)
    else if isHigh u || isLow u then none
    else (toText (v :: rest)).map (Char.ofNat u.toNat :: ·)

/-- The text with U+FFFD for each lone surrogate. -/
def toTextLossy : Utf16 → Text
  | [] => []
  | [u] => if isHigh u || isLow u then ['\uFFFD'] else [Char.ofNat u.toNat]
  | u :: v :: rest =>
    if isHigh u && isLow v then pair u v :: toTextLossy rest
    else if isHigh u || isLow u then '\uFFFD' :: toTextLossy (v :: rest)
    else Char.ofNat u.toNat :: toTextLossy (v :: rest)

theorem toTextLossy_of_toText {s : Utf16} {t : Text} (h : toText s = some t) : toTextLossy s = t := by
  induction s using toText.induct generalizing t with
  | case1 =>
    obtain rfl := Option.some.inj h
    rfl
  | case2 u hu =>
    rw [toText, if_pos hu] at h
    cases h
  | case3 u hu =>
    rw [toText, if_neg hu] at h
    rw [toTextLossy, if_neg hu, Option.some.inj h]
  | case4 u v rest hp ih =>
    rw [toText, if_pos hp] at h
    obtain ⟨t', ht, rfl⟩ := Option.map_eq_some_iff.1 h
    rw [toTextLossy, if_pos hp, ih ht]
  | case5 u v rest hp hu =>
    rw [toText, if_neg hp, if_pos hu] at h
    cases h
  | case6 u v rest hp hu ih =>
    rw [toText, if_neg hp, if_neg hu] at h
    obtain ⟨t', ht, rfl⟩ := Option.map_eq_some_iff.1 h
    rw [toTextLossy, if_neg hp, if_neg hu, ih ht]

/-- A string of ASCII characters. -/
def ofAscii (t : Text) : Utf16 := t.map fun c => UInt16.ofNat c.toNat

end Utf16

end Zedspaces.Lib
