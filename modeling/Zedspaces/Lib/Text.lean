/-
Texts as lists of characters: their UTF-8 bytes, the lossy reading of bytes as text, and the splits a parser
makes at a character. The bytes determine the text (`utf8_injective`); ASCII bytes are read character by
character (`utf8Lossy_utf8`).
-/
import Mathlib.Algebra.GroupWithZero.Nat
import Mathlib.Data.List.Basic
import Mathlib.Data.List.TakeWhile
import Mathlib.Tactic.Common

namespace Zedspaces.Lib

abbrev Text := List Char

namespace Text

-- Characters are finitely many, but what is said of those of a text is checked along the text.
instance {P : Char → Prop} [DecidablePred P] (t : Text) : Decidable (∀ c ∈ t, P c) := List.decidableBAll P t

instance {P : Char → Prop} [DecidablePred P] (t : Text) : Decidable (∃ c ∈ t, P c) := List.decidableBEx P t

instance (t : Text) (ts : List Text) : Decidable (t ∈ ts) := List.instDecidableMemOfLawfulBEq t ts

/-- A property of the characters of a fixed text is checked character by character. -/
theorem forall_mem_of_all {P : Char → Prop} [DecidablePred P] {t : Text} (h : (t.all fun c => decide (P c)) = true) :
    ∀ c ∈ t, P c := by
  intro c hc
  have hdecide := List.all_eq_true.1 h c hc
  exact of_decide_eq_true hdecide

/-! ## Literals -/

-- A literal is `String.ofList` of its characters, so what is checked of a list of characters holds of the literal.

theorem notMem_literal {c : Char} {t : Text} (h : c ∉ t) : c ∉ (String.ofList t).toList := by
  rwa [String.toList_ofList]

theorem mem_literals {s : String} {names : List String} : s.toList ∈ names.map String.toList ↔ s ∈ names :=
  List.mem_map_of_injective fun _ _ h => String.toList_inj.1 h

/-! ## Letters -/

theorem isUpper_iff {c : Char} : c.isUpper = true ↔ 65 ≤ c.toNat ∧ c.toNat ≤ 90 := by
  have hdef : c.isUpper = true ↔ 'A'.val ≤ c.val ∧ c.val ≤ 'Z'.val := ⟨fun h => of_decide_eq_true h, fun h => decide_eq_true h⟩
  rw [hdef, UInt32.le_iff_toNat_le, UInt32.le_iff_toNat_le]
  rfl

theorem isLower_iff {c : Char} : c.isLower = true ↔ 97 ≤ c.toNat ∧ c.toNat ≤ 122 := by
  have hdef : c.isLower = (decide ('a'.val ≤ c.val) && decide (c.val ≤ 'z'.val)) := rfl
  rw [hdef, Bool.and_eq_true, decide_eq_true_eq, decide_eq_true_eq, UInt32.le_iff_toNat_le, UInt32.le_iff_toNat_le]
  rfl

theorem isDigit_iff {c : Char} : c.isDigit = true ↔ 48 ≤ c.toNat ∧ c.toNat ≤ 57 := by
  have hdef : c.isDigit = (decide ('0'.val ≤ c.val) && decide (c.val ≤ '9'.val)) := rfl
  rw [hdef, Bool.and_eq_true, decide_eq_true_eq, decide_eq_true_eq, UInt32.le_iff_toNat_le, UInt32.le_iff_toNat_le]
  rfl

theorem isAlphanum_iff {c : Char} : c.isAlphanum = true ↔ c.isUpper = true ∨ c.isLower = true ∨ c.isDigit = true := by
  have hdef : c.isAlphanum = (c.isUpper || c.isLower || c.isDigit) := rfl
  rw [hdef, Bool.or_eq_true, Bool.or_eq_true, or_assoc]

/-! ## UTF-8 -/

/-- The text's bytes. -/
def utf8 (t : Text) : List UInt8 := t.flatMap String.utf8EncodeChar

theorem utf8_injective {t t' : Text} (h : utf8 t = utf8 t') : t = t' := by
  have hbytes : t.utf8Encode = t'.utf8Encode := congrArg List.toByteArray h
  have hstring : String.ofList t = String.ofList t' := String.toByteArray_inj.1 hbytes
  exact String.ofList_injective hstring

@[simp] theorem utf8_append (t t' : Text) : utf8 (t ++ t') = utf8 t ++ utf8 t' := List.flatMap_append

/-- Joining texts costs one separator less than there are texts. -/
theorem length_utf8_intercalate {c : Char} (hc : (utf8 [c]).length = 1) {items : List Text} (h : items ≠ []) :
    (utf8 ([c].intercalate items)).length + 1 = (items.map fun t => (utf8 t).length + 1).sum := by
  induction items with
  | nil => exact absurd rfl h
  | cons t rest ih =>
    cases rest with
    | nil => simp [List.intercalate]
    | cons t' rest =>
      have hjoin : [c].intercalate (t :: t' :: rest) = t ++ ([c] ++ [c].intercalate (t' :: rest)) := rfl
      have hrest := ih (List.cons_ne_nil _ _)
      rw [hjoin, utf8_append, utf8_append, List.map_cons, List.sum_cons, ← hrest]
      simp only [List.length_append, hc]
      omega

def isAscii (c : Char) : Bool := c.toNat < 128

/-- The byte of an ASCII character is its code. -/
theorem toNat_byte {c : Char} (h : isAscii c = true) : (UInt8.ofNat c.toNat).toNat = c.toNat := by
  have hlt : c.toNat < 128 := of_decide_eq_true h
  rw [UInt8.toNat_ofNat']
  omega

theorem utf8EncodeChar_ascii {c : Char} (h : isAscii c = true) : String.utf8EncodeChar c = [UInt8.ofNat c.toNat] := by
  have hlt : c.toNat ≤ 127 := Nat.le_of_lt_succ (of_decide_eq_true h)
  have hsize : c.utf8Size = 1 := Char.utf8Size_eq_one_iff.2 (UInt32.le_iff_toNat_le.2 hlt)
  exact String.utf8EncodeChar_eq_singleton hsize

theorem utf8_cons_ascii {c : Char} {t : Text} (h : isAscii c = true) :
    utf8 (c :: t) = UInt8.ofNat c.toNat :: utf8 t := by
  rw [utf8, List.flatMap_cons, utf8EncodeChar_ascii h]; rfl

theorem length_le_utf8 (t : Text) : t.length ≤ (utf8 t).length := by
  induction t with
  | nil => exact Nat.le_refl _
  | cons c t ih =>
    have hc : 1 ≤ (String.utf8EncodeChar c).length := by
      rw [String.length_utf8EncodeChar]
      exact c.utf8Size_pos
    have hcons : (utf8 (c :: t)).length = (String.utf8EncodeChar c).length + (utf8 t).length := by
      rw [utf8, List.flatMap_cons, List.length_append]; rfl
    rw [List.length_cons, hcons]
    omega

/-- What the decoder has of an unfinished character: how many bytes it still needs, the bits so far, and the
range of the next byte. -/
structure Pending where
  need : Nat
  bits : Nat
  low : Nat
  high : Nat

/-- A byte at a character boundary: what it emits, and the character it begins. -/
def firstByte (b : Nat) : Text × Option Pending :=
  if b < 0x80 then ([Char.ofNat b], none)
  else if 0xC2 ≤ b ∧ b ≤ 0xDF then ([], some ⟨1, b % 32, 0x80, 0xBF⟩)
  else if 0xE0 ≤ b ∧ b ≤ 0xEF then
    ([], some ⟨2, b % 16, if b = 0xE0 then 0xA0 else 0x80, if b = 0xED then 0x9F else 0xBF⟩)
  else if 0xF0 ≤ b ∧ b ≤ 0xF4 then
    ([], some ⟨3, b % 8, if b = 0xF0 then 0x90 else 0x80, if b = 0xF4 then 0x8F else 0xBF⟩)
  else (['\uFFFD'], none)

/-- Reads bytes as text; each longest invalid prefix of a character becomes one replacement character. -/
def utf8Lossy (pending : Option Pending) : List UInt8 → Text
  | [] => if pending.isSome then ['\uFFFD'] else []
  | b :: rest => match pending with
    | none => (firstByte b.toNat).1 ++ utf8Lossy (firstByte b.toNat).2 rest
    | some p =>
      if p.low ≤ b.toNat ∧ b.toNat ≤ p.high then
        if p.need = 1 then Char.ofNat (p.bits * 64 + b.toNat % 64) :: utf8Lossy none rest
        else utf8Lossy (some ⟨p.need - 1, p.bits * 64 + b.toNat % 64, 0x80, 0xBF⟩) rest
      else '\uFFFD' :: (firstByte b.toNat).1 ++ utf8Lossy (firstByte b.toNat).2 rest

theorem utf8Lossy_utf8 {t : Text} (h : ∀ c ∈ t, isAscii c = true) : utf8Lossy none (utf8 t) = t := by
  induction t with
  | nil => rfl
  | cons c t ih =>
    obtain ⟨hc, ht⟩ := List.forall_mem_cons.1 h
    have hlt : c.toNat < 128 := of_decide_eq_true hc
    have hfirst : firstByte c.toNat = ([c], none) := by
      rw [firstByte, if_pos hlt, Char.ofNat_toNat]
    rw [utf8_cons_ascii hc, utf8Lossy, toNat_byte hc, hfirst, ih ht]
    rfl

def upperHexDigit (n : Nat) : Char := if n < 10 then Char.ofNat (0x30 + n) else Char.ofNat (0x37 + n)

/-! ## Splits -/

/-- The text before and after the first `c`. -/
def splitOnce (c : Char) : Text → Option (Text × Text)
  | [] => none
  | d :: t => if d = c then some ([], t) else (splitOnce c t).map fun p => (d :: p.1, p.2)

theorem splitOnce_eq_some {c : Char} {t a b : Text} : splitOnce c t = some (a, b) ↔ t = a ++ c :: b ∧ c ∉ a := by
  induction t generalizing a with
  | nil => simp [splitOnce]
  | cons d t ih =>
    by_cases hd : d = c
    · subst hd
      rw [splitOnce, if_pos rfl]
      constructor
      · rintro ⟨⟩
        exact ⟨rfl, List.not_mem_nil⟩
      · rintro ⟨ht, hmem⟩
        cases a with
        | nil => cases ht; rfl
        | cons x a => exact absurd (List.cons_eq_cons.1 ht).1 fun h => hmem (h ▸ List.mem_cons_self ..)
    · rw [splitOnce, if_neg hd, Option.map_eq_some_iff]
      constructor
      · rintro ⟨⟨a, b⟩, hp, ⟨⟩⟩
        obtain ⟨rfl, hmem⟩ := ih.1 hp
        refine ⟨rfl, fun hc => ?_⟩
        rcases List.mem_cons.1 hc with rfl | hc
        · exact hd rfl
        · exact hmem hc
      · rintro ⟨ht, hmem⟩
        cases a with
        | nil => exact absurd (List.cons_eq_cons.1 ht).1 hd
        | cons x a =>
          obtain ⟨rfl, rfl⟩ := List.cons_eq_cons.1 ht
          exact ⟨(a, b), ih.2 ⟨rfl, fun hc => hmem (List.mem_cons_of_mem _ hc)⟩, rfl⟩

/-- The text without a leading `p`. -/
def stripPrefix (p t : Text) : Option Text := if p.isPrefixOf t then some (t.drop p.length) else none

theorem stripPrefix_append (p t : Text) : stripPrefix p (p ++ t) = some t := by
  have hprefix : p.isPrefixOf (p ++ t) = true := List.isPrefixOf_iff_prefix.2 (List.prefix_append p t)
  rw [stripPrefix, if_pos hprefix, List.drop_left]

theorem stripPrefix_eq_some {p t rest : Text} : stripPrefix p t = some rest ↔ t = p ++ rest := by
  constructor
  · intro h
    rw [stripPrefix] at h
    split at h
    · rename_i hprefix
      obtain ⟨rest', rfl⟩ := List.isPrefixOf_iff_prefix.1 hprefix
      rw [← Option.some.inj h, List.drop_left]
    · cases h
  · rintro rfl
    exact stripPrefix_append p rest

/-- Unicode's `White_Space`. -/
def isWhitespace (c : Char) : Bool :=
  let n := c.toNat
  (9 ≤ n && n ≤ 13) || n = 0x20 || n = 0x85 || n = 0xA0 || n = 0x1680 || (0x2000 ≤ n && n ≤ 0x200A) ||
    n = 0x2028 || n = 0x2029 || n = 0x202F || n = 0x205F || n = 0x3000

/-- The text without white space at either end. -/
def trim (t : Text) : Text := ((t.dropWhile isWhitespace).reverse.dropWhile isWhitespace).reverse

/-- Something stays of a text that starts with a visible character. -/
theorem trim_ne_nil {c : Char} {t : Text} (hc : isWhitespace c = false) : trim (c :: t) ≠ [] := by
  intro h
  rw [trim, List.dropWhile_cons_of_neg (by rw [hc]; exact Bool.false_ne_true), List.reverse_eq_nil_iff,
    List.dropWhile_eq_nil_iff] at h
  have hwhite := h c (List.mem_reverse.2 (List.mem_cons_self ..))
  rw [hc] at hwhite
  exact Bool.false_ne_true hwhite

end Text

end Zedspaces.Lib
