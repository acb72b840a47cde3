/-
JSON values and their compact text, as a serializer writes it: no white space, fields in order, control
characters escaped. A string in that text is read back, whatever follows it (`readString_string`).
-/
import Zedspaces.Lib.Text

namespace Zedspaces.Lib.Json

def lowerHexDigit (n : Nat) : Char := if n < 10 then Char.ofNat (0x30 + n) else Char.ofNat (0x57 + n)

def escape (c : Char) : Text :=
  match c.toNat with
  | 0x22 => ['\\', '"']
  | 0x5C => ['\\', '\\']
  | 0x08 => ['\\', 'b']
  | 0x09 => ['\\', 't']
  | 0x0A => ['\\', 'n']
  | 0x0C => ['\\', 'f']
  | 0x0D => ['\\', 'r']
  | n => if n < 0x20 then ['\\', 'u', '0', '0', lowerHexDigit (n / 16), lowerHexDigit (n % 16)] else [c]

def string (t : Text) : Text := '"' :: t.flatMap escape ++ ['"']

def number (n : Nat) : Text := Nat.toDigits 10 n

def field (name value : Text) : Text := string name ++ ':' :: value

/-- An object of the fields, each already a JSON text. -/
def object (fields : List (Text × Text)) : Text :=
  '{' :: [','].intercalate (fields.map fun f => field f.1 f.2) ++ ['}']

theorem two_le_length_object (fields : List (Text × Text)) : 2 ≤ (object fields).length := by
  simp only [object, List.length_append, List.length_cons, List.length_nil]
  omega

/-! ## Reading strings -/

/-- What stands for a character after a backslash. -/
def unescape (c : Char) : Option Char :=
  match c.toNat with
  | 0x22 => some '"'
  | 0x5C => some '\\'
  | 0x2F => some '/'
  | 0x62 => some (Char.ofNat 0x08)
  | 0x74 => some (Char.ofNat 0x09)
  | 0x6E => some (Char.ofNat 0x0A)
  | 0x66 => some (Char.ofNat 0x0C)
  | 0x72 => some (Char.ofNat 0x0D)
  | _ => none

def hexValue (c : Char) : Option Nat :=
  if 0x30 ≤ c.toNat ∧ c.toNat ≤ 0x39 then some (c.toNat - 0x30)
  else if 0x61 ≤ c.toNat ∧ c.toNat ≤ 0x66 then some (c.toNat - 0x57)
  else if 0x41 ≤ c.toNat ∧ c.toNat ≤ 0x46 then some (c.toNat - 0x37)
  else none

def readHex (digits : Text) : Option Char :=
  (digits.foldlM (fun n c => (hexValue c).map (16 * n + ·)) 0).map Char.ofNat

/-- The characters up to the closing quote, and what follows it. -/
def readChars : Text → Option (Text × Text)
  | [] => none
  | '"' :: rest => some ([], rest)
  | '\\' :: 'u' :: a :: b :: c :: d :: rest => do
    let char ← readHex [a, b, c, d]
    let (t, rest) ← readChars rest
    pure (char :: t, rest)
  | '\\' :: c :: rest => do
    let char ← unescape c
    let (t, rest) ← readChars rest
    pure (char :: t, rest)
  | c :: rest => do
    let (t, rest) ← readChars rest
    pure (c :: t, rest)

/-- A string in its quotes. -/
def readString : Text → Option (Text × Text)
  | '"' :: rest => readChars rest
  | _ => none

theorem readChars_plain {c : Char} (hquote : c ≠ '"') (hback : c ≠ '\\') (rest : Text) :
    readChars (c :: rest) = (readChars rest).map fun (t, rest) => (c :: t, rest) := by
  rw [readChars]
  · cases readChars rest <;> rfl
  · exact hquote
  · intro _ _ _ _ _ h
    exact absurd h hback
  · intro _ _ h
    exact absurd h hback

theorem readHex_control : ∀ n < 32, readHex ['0', '0', lowerHexDigit (n / 16), lowerHexDigit (n % 16)] =
    some (Char.ofNat n) := by decide

theorem readChars_escape (c : Char) (rest : Text) :
    readChars (escape c ++ rest) = (readChars rest).map fun (t, rest) => (c :: t, rest) := by
  have hc : Char.ofNat c.toNat = c := Char.ofNat_toNat c
  unfold escape
  split
  all_goals first
    | next h =>
      -- an escape of two characters
      rw [h] at hc
      subst hc
      show readChars ('\\' :: _ :: rest) = _
      cases hrest : readChars rest <;> simp [readChars, unescape, hrest]
    | skip
  next h =>
    split
    · next hcontrol =>
      have hhex := readHex_control c.toNat hcontrol
      rw [hc] at hhex
      show readChars ('\\' :: 'u' :: '0' :: '0' :: _ :: _ :: rest) = _
      rw [readChars, hhex]
      cases readChars rest <;> rfl
    · refine readChars_plain ?_ ?_ rest
      · rintro rfl
        simp at *
      · rintro rfl
        simp at *

/-- A string is read back, whatever follows it. -/
theorem readString_string (t rest : Text) : readString (string t ++ rest) = some (t, rest) := by
  show readChars (t.flatMap escape ++ ['"'] ++ rest) = some (t, rest)
  induction t with
  | nil => rfl
  | cons c t ih => rw [List.flatMap_cons, List.append_assoc, List.append_assoc, readChars_escape, ← List.append_assoc, ih]; rfl

/-! ## Values -/

/-- A JSON value; a number is its text. -/
inductive Value where
  | null
  | bool (b : Bool)
  | number (digits : Text)
  | string (t : Text)
  | array (items : List Value)
  | object (fields : List (Text × Value))

mutual

def Value.render : Value → Text
  | .null => ['n', 'u', 'l', 'l']
  | .bool b => if b then ['t', 'r', 'u', 'e'] else ['f', 'a', 'l', 's', 'e']
  | .number digits => digits
  | .string t => Json.string t
  | .array items => '[' :: [','].intercalate (renderItems items) ++ [']']
  | .object fields => Json.object (renderFields fields)

def renderItems : List Value → List Text
  | [] => []
  | v :: items => v.render :: renderItems items

def renderFields : List (Text × Value) → List (Text × Text)
  | [] => []
  | f :: fields => renderField f :: renderFields fields

def renderField : Text × Value → Text × Text
  | (name, v) => (name, v.render)

end

end Zedspaces.Lib.Json
