/-
JSON texts of UTF-16 units: their tokens, what `JSON.parse` makes of them, and the same with comments, a line comment
up to the end of its line and a block comment up to its end, where a comment is read as whitespace. Taking the comments
out of a text that is a document leaves its tokens as they are (`lex_uncomment`); of other texts it may join what stood
on either side of a block comment.
-/
import Zedspaces.Lib.JsonGrammar
import Zedspaces.Lib.Utf16

namespace Zedspaces.Lib.JsonText

open JsonGrammar

/-! ## Units -/

def quote : UInt16 := 0x22
def backslash : UInt16 := 0x5C
def slash : UInt16 := 0x2F
def star : UInt16 := 0x2A
def newline : UInt16 := 0x0A

/-- Whitespace of JSON. -/
def isSpace (u : UInt16) : Bool := u = 0x20 || u = 0x09 || u = 0x0A || u = 0x0D

/-- What `\s` matches and `trim` takes off: whitespace and line terminators of ECMAScript. -/
def isJsSpace (u : UInt16) : Bool :=
  (0x09 ≤ u && u ≤ 0x0D) || u = 0x20 || u = 0xA0 || u = 0x1680 || (0x2000 ≤ u && u ≤ 0x200A) || u = 0x2028 ||
    u = 0x2029 || u = 0x202F || u = 0x205F || u = 0x3000 || u = 0xFEFF

def isDigit (u : UInt16) : Bool := 0x30 ≤ u && u ≤ 0x39

/-- The units of numbers and names. -/
def isWord (u : UInt16) : Bool :=
  isDigit u || (0x41 ≤ u && u ≤ 0x5A) || (0x61 ≤ u && u ≤ 0x7A) || u = 0x2B || u = 0x2D || u = 0x2E

def trim (t : Utf16) : Utf16 := ((t.dropWhile isJsSpace).reverse.dropWhile isJsSpace).reverse

/-! ## Scalars and strings -/

/-- The digits of an exponent, of which there is at least one. -/
def isExponent (t : Utf16) : Bool :=
  let digits := match t with
    | u :: rest => if u = 0x2B || u = 0x2D then rest else t
    | [] => t
  !digits.isEmpty && digits.all isDigit

/-- What follows the digits of a number's integer part. -/
def isFraction (t : Utf16) : Bool :=
  match t with
  | [] => true
  | u :: rest =>
    if u = 0x2E then
      let after := rest.dropWhile isDigit
      !(rest.takeWhile isDigit).isEmpty && match after with
        | [] => true
        | e :: exponent => (e = 0x65 || e = 0x45) && isExponent exponent
    else (u = 0x65 || u = 0x45) && isExponent rest

def isUnsigned (t : Utf16) : Bool :=
  match t with
  | [] => false
  | u :: rest => if u = 0x30 then isFraction rest else isDigit u && isFraction (rest.dropWhile isDigit)

def isNumber (t : Utf16) : Bool :=
  match t with
  | [] => false
  | u :: rest => if u = 0x2D then isUnsigned rest else isUnsigned t

/-- A number, `true`, `false` or `null`. -/
def isScalar (t : Utf16) : Bool :=
  isNumber t || t = [0x74, 0x72, 0x75, 0x65] || t = [0x66, 0x61, 0x6C, 0x73, 0x65] || t = [0x6E, 0x75, 0x6C, 0x6C]

def hexValue (u : UInt16) : Option UInt16 :=
  if isDigit u then some (u - 0x30)
  else if 0x61 ≤ u && u ≤ 0x66 then some (u - 0x57)
  else if 0x41 ≤ u && u ≤ 0x46 then some (u - 0x37)
  else none

/-- The escapes of one unit. -/
def unescape (u : UInt16) : Option UInt16 :=
  if u = quote || u = backslash || u = slash then some u
  else if u = 0x62 then some 0x08
  else if u = 0x66 then some 0x0C
  else if u = 0x6E then some 0x0A
  else if u = 0x72 then some 0x0D
  else if u = 0x74 then some 0x09
  else none

/-- The string that is written between quotes. -/
def decode : Utf16 → Option Utf16
  | [] => some []
  | u :: rest =>
    if u = backslash then
      match rest with
      | [] => none
      | v :: rest =>
        if v = 0x75 then
          match rest with
          | a :: b :: c :: d :: rest => do
            let a ← hexValue a
            let b ← hexValue b
            let c ← hexValue c
            let d ← hexValue d
            return (a * 0x1000 + b * 0x100 + c * 0x10 + d) :: (← decode rest)
          | _ => none
        else do return (← unescape v) :: (← decode rest)
    else if u < 0x20 then none
    else do return u :: (← decode rest)

/-! ## Tokens -/

abbrev Token := JsonGrammar.Token Utf16

def structural (u : UInt16) : Option Token :=
  if u = 0x5B then some .openArray
  else if u = 0x5D then some .closeArray
  else if u = 0x7B then some .openObject
  else if u = 0x7D then some .closeObject
  else if u = 0x3A then some .colon
  else if u = 0x2C then some .comma
  else none

/-- Where the reading of a text stands: in the number or name `word`, or in none; in a string, of which `raw` is read;
in a comment. -/
inductive Mode where
  | plain (word : Utf16)
  | string (raw : Utf16)
  | escape (raw : Utf16)
  | line
  | opening
  | block
  | closing

/-- A number or name ends. -/
def flush (word : Utf16) : Option (List Token) :=
  if word = [] then some [] else if isScalar word then some [.scalar word] else none

/-- The tokens of a text, with whitespace between them, and comments where there may be any. -/
def lex (comments : Bool) : Mode → Utf16 → Option (List Token)
  | .plain word, [] => flush word
  | .line, [] => some []
  | .string _, [] | .escape _, [] | .opening, [] | .block, [] | .closing, [] => none
  | .plain word, u :: rest =>
    if isWord u then lex comments (.plain (word ++ [u])) rest
    else (flush word).bind fun ts => Option.map (ts ++ ·) <|
      if isSpace u then lex comments (.plain []) rest
      else if u = quote then lex comments (.string []) rest
      else if comments ∧ u = slash ∧ rest.head? = some slash then lex comments .line rest
      else if comments ∧ u = slash ∧ rest.head? = some star then lex comments .opening rest
      else (structural u).bind fun t => (lex comments (.plain []) rest).map (t :: ·)
  | .string raw, u :: rest =>
    if u = quote then (decode raw).bind fun s => (lex comments (.plain []) rest).map (.string s :: ·)
    else if u = backslash then lex comments (.escape (raw ++ [u])) rest
    else lex comments (.string (raw ++ [u])) rest
  | .escape raw, u :: rest => lex comments (.string (raw ++ [u])) rest
  | .line, u :: rest => if u = newline then lex comments (.plain []) rest else lex comments .line rest
  | .opening, _ :: rest => lex comments .block rest
  | .block, u :: rest =>
    if u = star ∧ rest.head? = some slash then lex comments .closing rest else lex comments .block rest
  | .closing, _ :: rest => lex comments (.plain []) rest

/-- `JSON.parse`. A number stays as it is written, and an object keeps all its members. -/
def jsonParse (t : Utf16) : Option (JsonGrammar.Tree Utf16) := (lex false (.plain []) t).bind (read false)

/-- No tokens, or those of a value. -/
def Reads (ts : List Token) (result : Option (JsonGrammar.Tree Utf16)) : Prop :=
  ts = [] ∧ result = none ∨ ∃ v, result = some v ∧ IsValue true ts v

/-- A JSON document with comments and trailing commas, and its value; or nothing but whitespace and comments. -/
def Jsonc (t : Utf16) (result : Option (JsonGrammar.Tree Utf16)) : Prop :=
  ∃ ts, lex true (.plain []) t = some ts ∧ Reads ts result

/-! ## Reading on from a unit -/

section
variable {comments : Bool} {u : UInt16} {word raw rest t : Utf16} {ts fl : List Token}

theorem lex_plain_nil : lex comments (.plain word) [] = flush word := rfl

theorem lex_plain_cons : lex comments (.plain word) (u :: rest) =
    if isWord u then lex comments (.plain (word ++ [u])) rest
    else (flush word).bind fun ts => Option.map (ts ++ ·) <|
      if isSpace u then lex comments (.plain []) rest
      else if u = quote then lex comments (.string []) rest
      else if comments ∧ u = slash ∧ rest.head? = some slash then lex comments .line rest
      else if comments ∧ u = slash ∧ rest.head? = some star then lex comments .opening rest
      else (structural u).bind fun t => (lex comments (.plain []) rest).map (t :: ·) := rfl

theorem lex_string_cons : lex comments (.string raw) (u :: rest) =
    if u = quote then (decode raw).bind fun s => (lex comments (.plain []) rest).map (.string s :: ·)
    else if u = backslash then lex comments (.escape (raw ++ [u])) rest
    else lex comments (.string (raw ++ [u])) rest := rfl

theorem lex_line_cons : lex comments .line (u :: rest) =
    if u = newline then lex comments (.plain []) rest else lex comments .line rest := rfl

theorem lex_block_cons : lex comments .block (u :: rest) =
    if u = star ∧ rest.head? = some slash then lex comments .closing rest else lex comments .block rest := rfl

theorem lex_word (h : isWord u = true) :
    lex comments (.plain word) (u :: rest) = lex comments (.plain (word ++ [u])) rest :=
  if_pos h

/-- Where no number or name goes on, one ends. -/
theorem lex_flush (h : ∀ u, t.head? = some u → isWord u = false) : lex comments (.plain word) t =
    (flush word).bind fun ts => (lex comments (.plain []) t).map (ts ++ ·) := by
  cases t with
  | nil =>
    rw [lex_plain_nil, lex_plain_nil]
    cases flush word <;> simp [flush]
  | cons u rest =>
    have hu : ¬ isWord u = true := by simp [h u rfl]
    rw [lex_plain_cons, if_neg hu, lex_plain_cons, if_neg hu]
    cases hfl : flush word <;> simp [flush]

theorem lex_space (h : isSpace u = true) : lex comments (.plain []) (u :: rest) = lex comments (.plain []) rest := by
  have hu : ¬ isWord u = true := by
    simp only [isSpace, Bool.or_eq_true, decide_eq_true_eq] at h
    obtain ((rfl | rfl) | rfl) | rfl := h <;> decide
  rw [lex_plain_cons, if_neg hu, if_pos h]
  simp [flush]

theorem lex_quote : lex comments (.plain []) (quote :: rest) = lex comments (.string []) rest := by
  rw [lex_plain_cons, if_neg (by decide), if_neg (by decide), if_pos rfl]
  simp [flush]

theorem structural_cases {token : Token} (h : structural u = some token) : (u = 0x5B ∧ token = .openArray) ∨
    (u = 0x5D ∧ token = .closeArray) ∨ (u = 0x7B ∧ token = .openObject) ∨ (u = 0x7D ∧ token = .closeObject) ∨
    (u = 0x3A ∧ token = .colon) ∨ (u = 0x2C ∧ token = .comma) := by
  unfold structural at h
  split at h
  · next hu => exact .inl ⟨hu, (Option.some.inj h).symm⟩
  refine .inr ?_
  split at h
  · next hu => exact .inl ⟨hu, (Option.some.inj h).symm⟩
  refine .inr ?_
  split at h
  · next hu => exact .inl ⟨hu, (Option.some.inj h).symm⟩
  refine .inr ?_
  split at h
  · next hu => exact .inl ⟨hu, (Option.some.inj h).symm⟩
  refine .inr ?_
  split at h
  · next hu => exact .inl ⟨hu, (Option.some.inj h).symm⟩
  refine .inr ?_
  split at h
  · next hu => exact ⟨hu, (Option.some.inj h).symm⟩
  · cases h

theorem structural_plain {token : Token} (h : structural u = some token) : isWord u = false ∧ isSpace u = false ∧
    u ≠ quote ∧ u ≠ slash := by
  obtain ⟨rfl, -⟩ | ⟨rfl, -⟩ | ⟨rfl, -⟩ | ⟨rfl, -⟩ | ⟨rfl, -⟩ | ⟨rfl, -⟩ := structural_cases h <;> decide

theorem lex_structural {token : Token} (h : structural u = some token) :
    lex comments (.plain []) (u :: rest) = (lex comments (.plain []) rest).map (token :: ·) := by
  obtain ⟨hword, hspace, hquote, hslash⟩ := structural_plain h
  rw [lex_plain_cons, if_neg (by simp [hword]), if_neg (by simp [hspace]), if_neg hquote, if_neg (by simp [hslash]),
    if_neg (by simp [hslash]), h]
  simp [flush]
  rfl

/-- What a text without comments may go on with; anything else has no tokens. -/
theorem unit_cases (u : UInt16) : isWord u = true ∨ isSpace u = true ∨ u = quote ∨
    (∃ token, structural u = some token) ∨ ∀ rest, lex false (.plain []) (u :: rest) = none := by
  by_cases hword : isWord u = true
  · exact .inl hword
  · by_cases hspace : isSpace u = true
    · exact .inr (.inl hspace)
    · by_cases hquote : u = quote
      · exact .inr (.inr (.inl hquote))
      · cases htoken : structural u with
        | some token => exact .inr (.inr (.inr (.inl ⟨token, rfl⟩)))
        | none =>
          refine .inr (.inr (.inr (.inr fun rest => ?_)))
          rw [lex_plain_cons, if_neg hword, if_neg hspace, if_neg hquote, if_neg (by simp), if_neg (by simp), htoken]
          cases flush [] <;> rfl

theorem lex_cases (h : lex false (.plain []) (u :: rest) = some ts) :
    (isWord u = true ∧ lex false (.plain [u]) rest = some ts) ∨
    (isSpace u = true ∧ lex false (.plain []) rest = some ts) ∨ (u = quote ∧ lex false (.string []) rest = some ts) ∨
    ∃ token tail, structural u = some token ∧ lex false (.plain []) rest = some tail ∧ ts = token :: tail := by
  rcases unit_cases u with hword | hspace | rfl | ⟨token, htoken⟩ | hnone
  · rw [lex_word hword] at h
    exact .inl ⟨hword, h⟩
  · rw [lex_space hspace] at h
    exact .inr (.inl ⟨hspace, h⟩)
  · rw [lex_quote] at h
    exact .inr (.inr (.inl ⟨rfl, h⟩))
  · rw [lex_structural htoken] at h
    obtain ⟨tail, htail, rfl⟩ := Option.map_eq_some_iff.1 h
    exact .inr (.inr (.inr ⟨token, tail, htoken, htail, rfl⟩))
  · rw [hnone] at h
    cases h

/-- A number or name that has begun is the first token. -/
theorem lex_word_head (hword : word ≠ []) (h : lex comments (.plain word) t = some ts) :
    ∃ s tail, ts = .scalar s :: tail := by
  have hflush : ∀ {fl}, flush word = some fl → fl = [.scalar word] := by
    intro fl hfl
    rw [flush, if_neg hword] at hfl
    exact (Option.some.inj (Option.ite_none_right_eq_some.1 hfl).2).symm
  induction t generalizing word with
  | nil => exact ⟨word, [], hflush h⟩
  | cons u rest ih =>
    by_cases hu : isWord u = true
    · rw [lex_word hu] at h
      refine ih (by simp) h fun {fl} hfl => ?_
      rw [flush, if_neg (by simp)] at hfl
      exact (Option.some.inj (Option.ite_none_right_eq_some.1 hfl).2).symm
    · rw [lex_flush (fun v hv => by simpa [Option.some.inj hv] using hu)] at h
      obtain ⟨fl, hfl, h⟩ := Option.bind_eq_some_iff.1 h
      obtain ⟨tail, -, rfl⟩ := Option.map_eq_some_iff.1 h
      exact ⟨word, tail, by rw [hflush hfl]; rfl⟩

/-- So is a string. -/
theorem lex_string_head (h : lex comments (.string raw) t = some ts ∨ lex comments (.escape raw) t = some ts) :
    ∃ s tail, ts = .string s :: tail := by
  induction t generalizing raw with
  | nil => rcases h with h | h <;> cases h
  | cons u rest ih =>
    rcases h with h | h
    · rw [lex_string_cons] at h
      split at h
      · obtain ⟨s, -, h⟩ := Option.bind_eq_some_iff.1 h
        obtain ⟨tail, -, rfl⟩ := Option.map_eq_some_iff.1 h
        exact ⟨s, tail, rfl⟩
      · split at h
        · exact ih (.inr h)
        · exact ih (.inl h)
    · exact ih (.inl h)

end

/-! ## Whitespace at the ends -/

section
variable {u : UInt16} {word raw rest t ws : Utf16} {ts : List Token} {m : Mode}

theorem jsSpace_range (h : isJsSpace u = true) : u.toNat ≤ 0x20 ∨ 0xA0 ≤ u.toNat := by
  simp only [isJsSpace, Bool.or_eq_true, Bool.and_eq_true, decide_eq_true_eq, UInt16.le_iff_toNat_le,
    ← UInt16.toNat_inj] at h
  simp at h
  omega

theorem word_range (h : isWord u = true) : 0x2B ≤ u.toNat ∧ u.toNat ≤ 0x7A := by
  simp only [isWord, isDigit, Bool.or_eq_true, Bool.and_eq_true, decide_eq_true_eq, UInt16.le_iff_toNat_le,
    ← UInt16.toNat_inj] at h
  simp at h
  omega

theorem jsSpace_of_space (h : isSpace u = true) : isJsSpace u = true := by
  simp only [isSpace, Bool.or_eq_true, decide_eq_true_eq] at h
  obtain ((rfl | rfl) | rfl) | rfl := h <;> decide

theorem not_word_of_jsSpace (h : isJsSpace u = true) : isWord u = false := by
  have hspace := jsSpace_range h
  refine Bool.eq_false_iff.2 fun hword => ?_
  have := word_range hword
  omega

theorem ne_of_jsSpace {v : UInt16} (h : isJsSpace u = true) (hv : isJsSpace v = false) : u ≠ v := by
  rintro rfl
  rw [h] at hv
  cases hv

theorem not_structural_of_jsSpace (h : isJsSpace u = true) : structural u = none := by
  unfold structural
  rw [if_neg (ne_of_jsSpace h (by decide)), if_neg (ne_of_jsSpace h (by decide)), if_neg (ne_of_jsSpace h (by decide)),
    if_neg (ne_of_jsSpace h (by decide)), if_neg (ne_of_jsSpace h (by decide)), if_neg (ne_of_jsSpace h (by decide))]

/-- A text has a token when it begins with a unit that is none of whitespace. -/
theorem lex_ne_nil (hu : isJsSpace u = false) (h : lex false (.plain []) (u :: rest) = some ts) : ts ≠ [] := by
  rcases lex_cases h with ⟨-, hrest⟩ | ⟨hspace, -⟩ | ⟨-, hrest⟩ | ⟨token, tail, -, -, rfl⟩
  · obtain ⟨s, tail, rfl⟩ := lex_word_head (List.cons_ne_nil u []) hrest
    exact List.cons_ne_nil _ _
  · rw [jsSpace_of_space hspace] at hu
    cases hu
  · obtain ⟨s, tail, rfl⟩ := lex_string_head (.inl hrest)
    exact List.cons_ne_nil _ _
  · exact List.cons_ne_nil _ _

/-- Whitespace before a text with tokens is whitespace of JSON. -/
theorem lex_jsSpace (hu : isJsSpace u = true) (h : lex false (.plain []) (u :: rest) = some ts) :
    lex false (.plain []) rest = some ts := by
  rcases lex_cases h with ⟨hword, -⟩ | ⟨-, h⟩ | ⟨rfl, -⟩ | ⟨token, tail, htoken, -⟩
  · rw [not_word_of_jsSpace hu] at hword
    cases hword
  · exact h
  · exact absurd hu (by decide)
  · rw [not_structural_of_jsSpace hu] at htoken
    cases htoken

theorem lex_dropWhile (h : lex false (.plain []) t = some ts) :
    lex false (.plain []) (t.dropWhile isJsSpace) = some ts := by
  induction t with
  | nil => exact h
  | cons u rest ih =>
    rw [List.dropWhile_cons]
    split
    · next hu => exact ih (lex_jsSpace hu h)
    · exact h

/-- A mode of texts without comments. -/
def Mode.isJson : Mode → Bool
  | .plain _ | .string _ | .escape _ => true
  | .line | .opening | .block | .closing => false

/-- Whitespace behind a text with tokens. -/
theorem lex_concat_jsSpace (hu : isJsSpace u = true) (hm : m.isJson = true) (h : lex false m (t ++ [u]) = some ts) :
    lex false m t = some ts := by
  have hword := not_word_of_jsSpace hu
  induction t generalizing m ts with
  | nil =>
    match m, hm with
    | .plain word, _ =>
      rw [List.nil_append, lex_flush (by simp [hword])] at h
      obtain ⟨fl, hfl, h⟩ := Option.bind_eq_some_iff.1 h
      obtain ⟨tail, htail, rfl⟩ := Option.map_eq_some_iff.1 h
      cases lex_jsSpace hu htail
      rw [List.append_nil]
      exact hfl
    | .string raw, _ =>
      obtain ⟨s, tail, rfl⟩ := lex_string_head (.inl h)
      rw [List.nil_append, lex, if_neg (ne_of_jsSpace hu (by decide)), if_neg (ne_of_jsSpace hu (by decide))] at h
      cases h
    | .escape raw, _ => cases h
  | cons v rest ih =>
    match m, hm with
    | .plain word, _ =>
      by_cases hv : isWord v = true
      · rw [List.cons_append, lex_word hv] at h
        rw [lex_word hv]
        exact ih rfl h
      · have hflush : ∀ tail : Utf16, ∀ w, (v :: tail).head? = some w → isWord w = false := fun _ w hw =>
          Option.some.inj hw ▸ Bool.eq_false_iff.2 hv
        rw [List.cons_append, lex_flush (hflush _)] at h
        obtain ⟨fl, hfl, h⟩ := Option.bind_eq_some_iff.1 h
        obtain ⟨tail, htail, rfl⟩ := Option.map_eq_some_iff.1 h
        rw [lex_flush (hflush _), hfl, Option.bind_some]
        refine Option.map_eq_some_iff.2 ⟨tail, ?_, rfl⟩
        rcases lex_cases htail with ⟨hw, -⟩ | ⟨hspace, hmore⟩ | ⟨rfl, hmore⟩ | ⟨token, more, htoken, hmore, rfl⟩
        · exact absurd hw hv
        · rw [lex_space hspace]
          exact ih rfl hmore
        · rw [lex_quote]
          exact @ih tail (.string []) rfl hmore
        · rw [lex_structural htoken, ih rfl hmore]
          rfl
    | .string raw, _ =>
      rw [List.cons_append, lex_string_cons] at h
      rw [lex_string_cons]
      split at h
      · next hquote =>
        rw [if_pos hquote]
        obtain ⟨s, hs, h⟩ := Option.bind_eq_some_iff.1 h
        obtain ⟨tail, htail, rfl⟩ := Option.map_eq_some_iff.1 h
        rw [hs, Option.bind_some, ih rfl htail]
        rfl
      · next hquote =>
        rw [if_neg hquote]
        split at h
        · next hback =>
          rw [if_pos hback]
          exact @ih ts (.escape (raw ++ [v])) rfl h
        · next hback =>
          rw [if_neg hback]
          exact @ih ts (.string (raw ++ [v])) rfl h
    | .escape raw, _ => exact @ih ts (.string (raw ++ [v])) rfl h

theorem lex_append_jsSpace (hws : ∀ u ∈ ws, isJsSpace u = true) (h : lex false (.plain []) (t ++ ws) = some ts) :
    lex false (.plain []) t = some ts := by
  induction ws using List.reverseRecOn with
  | nil => rwa [List.append_nil] at h
  | append_singleton ws u ih =>
    rw [← List.append_assoc] at h
    refine ih (fun v hv => hws v (List.mem_append_left _ hv)) ?_
    exact lex_concat_jsSpace (hws u (List.mem_append_right _ (List.mem_singleton_self u))) rfl h

/-- A text that starts with none is its trimmed part before whitespace. -/
theorem dropWhile_eq_trim (t : Utf16) : ∃ after, t.dropWhile isJsSpace = trim t ++ after ∧
    ∀ u ∈ after, isJsSpace u = true := by
  refine ⟨((t.dropWhile isJsSpace).reverse.takeWhile isJsSpace).reverse, ?_, ?_⟩
  · rw [trim, ← List.reverse_append, List.takeWhile_append_dropWhile, List.reverse_reverse]
  · exact fun u hu => List.mem_takeWhile_imp (List.mem_reverse.1 hu)

theorem trim_spec (t : Utf16) : ∃ before after, t = before ++ (trim t ++ after) ∧ (∀ u ∈ before, isJsSpace u = true) ∧
    ∀ u ∈ after, isJsSpace u = true := by
  obtain ⟨after, heq, hafter⟩ := dropWhile_eq_trim t
  exact ⟨t.takeWhile isJsSpace, after, by rw [← heq, List.takeWhile_append_dropWhile],
    fun u hu => List.mem_takeWhile_imp hu, hafter⟩

theorem head_dropWhile (h : (t.dropWhile isJsSpace).head? = some u) : isJsSpace u = false := by
  have hnot := List.head?_dropWhile_not isJsSpace t
  rw [h] at hnot
  simpa using hnot

theorem trim_head (h : (trim t).head? = some u) : isJsSpace u = false := by
  obtain ⟨after, heq, -⟩ := dropWhile_eq_trim t
  refine @head_dropWhile u t ?_
  rw [heq, List.head?_append, h]
  rfl

/-- What a text begins with past whitespace, it begins with when trimmed. -/
theorem trim_cons (h : t.dropWhile isJsSpace = u :: rest) : ∃ more, trim t = u :: more := by
  obtain ⟨after, heq, hafter⟩ := dropWhile_eq_trim t
  rw [h] at heq
  match htrim : trim t with
  | [] =>
    have hmem : u ∈ after := by
      rw [htrim, List.nil_append] at heq
      exact heq ▸ List.mem_cons_self ..
    have hhead := @head_dropWhile u t (by rw [h]; rfl)
    rw [hafter u hmem] at hhead
    cases hhead
  | v :: more =>
    rw [htrim] at heq
    exact ⟨more, by rw [(List.cons.inj heq).1]⟩

theorem trim_last (h : (trim t).getLast? = some u) : isJsSpace u = false := by
  rw [trim, List.getLast?_reverse] at h
  exact head_dropWhile h

theorem dropWhile_eq_self (h : ∀ u, t.head? = some u → isJsSpace u = false) : t.dropWhile isJsSpace = t := by
  cases t with
  | nil => rfl
  | cons u rest => rw [List.dropWhile_cons_of_neg (by simp [h u rfl])]

theorem trim_eq_self (hhead : ∀ u, t.head? = some u → isJsSpace u = false)
    (hlast : ∀ u, t.getLast? = some u → isJsSpace u = false) : trim t = t := by
  rw [trim, dropWhile_eq_self hhead, dropWhile_eq_self, List.reverse_reverse]
  intro u hu
  rw [List.head?_reverse] at hu
  exact hlast u hu

theorem trim_before (hws : ∀ u ∈ ws, isJsSpace u = true) : trim (ws ++ t) = trim t := by
  rw [trim, List.dropWhile_append_of_pos hws, trim]

theorem trim_after (hws : ∀ u ∈ ws, isJsSpace u = true) : trim (t ++ ws) = trim t := by
  have hreverse : ∀ u ∈ ws.reverse, isJsSpace u = true := fun u hu => hws u (List.mem_reverse.1 hu)
  rw [trim, trim, List.dropWhile_append]
  split
  · next hempty =>
    have hnil : ws.dropWhile isJsSpace = [] := List.dropWhile_eq_nil_iff.2 hws
    rw [List.isEmpty_iff.1 hempty, hnil]
  · rw [List.reverse_append, List.dropWhile_append_of_pos hreverse]

theorem lex_trim (h : lex false (.plain []) t = some ts) : lex false (.plain []) (trim t) = some ts := by
  obtain ⟨after, heq, hafter⟩ := dropWhile_eq_trim t
  have hdrop := lex_dropWhile h
  rw [heq] at hdrop
  exact lex_append_jsSpace hafter hdrop

end

/-! ## Comments -/

/-- Where a scan for comments stands: outside of strings and comments, or in one. -/
inductive Scan where
  | outer
  | string
  | escape
  | line
  | opening
  | block
  | closing
  deriving DecidableEq, Repr

def uncommentFrom : Scan → Utf16 → Utf16
  | _, [] => []
  | .outer, u :: rest =>
    if u = quote then u :: uncommentFrom .string rest
    else if u = slash ∧ rest.head? = some slash then uncommentFrom .line rest
    else if u = slash ∧ rest.head? = some star then uncommentFrom .opening rest
    else u :: uncommentFrom .outer rest
  | .string, u :: rest =>
    u :: uncommentFrom (if u = backslash then .escape else if u = quote then .outer else .string) rest
  | .escape, u :: rest => u :: uncommentFrom .string rest
  | .line, u :: rest => if u = newline then u :: uncommentFrom .outer rest else uncommentFrom .line rest
  | .opening, _ :: rest => uncommentFrom .block rest
  | .block, u :: rest =>
    if u = star ∧ rest.head? = some slash then uncommentFrom .closing rest else uncommentFrom .block rest
  | .closing, _ :: rest => uncommentFrom .outer rest

/-- The text without its comments, one that is not closed included. -/
def uncomment (t : Utf16) : Utf16 := uncommentFrom .outer t

/-- The units of the strings, with their quotes. -/
def quotedFrom (comments : Bool) : Scan → Utf16 → Utf16
  | _, [] => []
  | .outer, u :: rest =>
    if u = quote then u :: quotedFrom comments .string rest
    else if comments ∧ u = slash ∧ rest.head? = some slash then quotedFrom comments .line rest
    else if comments ∧ u = slash ∧ rest.head? = some star then quotedFrom comments .opening rest
    else quotedFrom comments .outer rest
  | .string, u :: rest =>
    u :: quotedFrom comments (if u = backslash then .escape else if u = quote then .outer else .string) rest
  | .escape, u :: rest => u :: quotedFrom comments .string rest
  | .line, u :: rest => quotedFrom comments (if u = newline then .outer else .line) rest
  | .opening, _ :: rest => quotedFrom comments .block rest
  | .block, u :: rest =>
    quotedFrom comments (if u = star ∧ rest.head? = some slash then .closing else .block) rest
  | .closing, _ :: rest => quotedFrom comments .outer rest

def Mode.scan : Mode → Scan
  | .plain _ => .outer
  | .string _ => .string
  | .escape _ => .escape
  | .line => .line
  | .opening => .opening
  | .block => .block
  | .closing => .closing

/-- No two scalars stand side by side, so that taking out a comment between them would join them. -/
def Unjoined (ts : List Token) : Prop := ts.IsChain fun t u => ¬ (t.isScalar = true ∧ u.isScalar = true)

section
variable {u : UInt16} {word raw rest t : Utf16} {ts fl : List Token}

/-- What a text with comments that has tokens may go on with. -/
theorem lex_comments_cases (h : lex true (.plain []) (u :: rest) = some ts) (hword : ¬ isWord u = true) :
    (isSpace u = true ∧ lex true (.plain []) rest = some ts) ∨ (u = quote ∧ lex true (.string []) rest = some ts) ∨
    (u = slash ∧ rest.head? = some slash ∧ lex true .line rest = some ts) ∨
    (u = slash ∧ rest.head? = some star ∧ lex true .opening rest = some ts) ∨
    ∃ token tail, structural u = some token ∧ lex true (.plain []) rest = some tail ∧ ts = token :: tail := by
  by_cases hspace : isSpace u = true
  · rw [lex_space hspace] at h
    exact .inl ⟨hspace, h⟩
  · by_cases hquote : u = quote
    · subst hquote
      rw [lex_quote] at h
      exact .inr (.inl ⟨rfl, h⟩)
    · rw [lex_plain_cons, if_neg hword, if_neg hspace, if_neg hquote] at h
      simp only [flush, if_true, Option.bind_some, List.nil_append, Option.map_id_fun', id_eq, true_and] at h
      split at h
      · next hline => exact .inr (.inr (.inl ⟨hline.1, hline.2, h⟩))
      · split at h
        · next hblock => exact .inr (.inr (.inr (.inl ⟨hblock.1, hblock.2, h⟩)))
        · obtain ⟨token, htoken, h⟩ := Option.bind_eq_some_iff.1 h
          obtain ⟨tail, htail, rfl⟩ := Option.map_eq_some_iff.1 h
          exact .inr (.inr (.inr (.inr ⟨token, tail, htoken, htail, rfl⟩)))

theorem uncommentFrom_outer_cons : uncommentFrom .outer (u :: rest) =
    if u = quote then u :: uncommentFrom .string rest
    else if u = slash ∧ rest.head? = some slash then uncommentFrom .line rest
    else if u = slash ∧ rest.head? = some star then uncommentFrom .opening rest
    else u :: uncommentFrom .outer rest := rfl

theorem uncommentFrom_string : uncommentFrom .string (u :: rest) =
    u :: uncommentFrom (if u = backslash then .escape else if u = quote then .outer else .string) rest := rfl

theorem uncommentFrom_line : uncommentFrom .line (u :: rest) =
    if u = newline then u :: uncommentFrom .outer rest else uncommentFrom .line rest := rfl

theorem uncommentFrom_block : uncommentFrom .block (u :: rest) =
    if u = star ∧ rest.head? = some slash then uncommentFrom .closing rest else uncommentFrom .block rest := rfl

/-- A unit that starts neither a string nor a comment stays. -/
theorem uncommentFrom_outer (hquote : u ≠ quote) (hslash : u ≠ slash) :
    uncommentFrom .outer (u :: rest) = u :: uncommentFrom .outer rest := by
  rw [uncommentFrom_outer_cons, if_neg hquote, if_neg (fun h => hslash h.1), if_neg (fun h => hslash h.1)]

/-- A number or name before a comment ends there, when no other follows. -/
theorem lex_pending (hfl : flush word = some fl) (h : lex false (.plain []) t = some ts) (hts : Unjoined (fl ++ ts)) :
    lex false (.plain word) t = some (fl ++ ts) := by
  have hhead : word = [] ∨ ∀ u, t.head? = some u → isWord u = false := by
    by_cases hword : word = []
    · exact .inl hword
    · refine .inr fun u hu => Bool.eq_false_iff.2 fun hw => ?_
      obtain ⟨rest, rfl⟩ := List.head?_eq_some_iff.1 hu
      rw [lex_word hw] at h
      obtain ⟨s, tail, rfl⟩ := lex_word_head (List.cons_ne_nil u []) h
      rw [flush, if_neg hword] at hfl
      obtain ⟨-, heq⟩ := Option.ite_none_right_eq_some.1 hfl
      cases heq
      exact (List.isChain_cons.1 hts).1 _ rfl ⟨rfl, rfl⟩
  rcases hhead with rfl | hhead
  · cases hfl
    exact h
  · rw [lex_flush hhead, hfl, h]
    rfl

/-- A text's tokens, and those of it without its comments, from any mode on. -/
theorem lex_uncommentFrom (t : Utf16) :
    (∀ m ts, m.isJson = true → lex true m t = some ts → Unjoined ts →
      lex false m (uncommentFrom m.scan t) = some ts) ∧
    (∀ m ts word fl, m.isJson = false → lex true m t = some ts → flush word = some fl → Unjoined (fl ++ ts) →
      lex false (.plain word) (uncommentFrom m.scan t) = some (fl ++ ts)) := by
  induction t with
  | nil =>
    constructor
    · intro m ts hm h _
      match m, hm with
      | .plain word, _ => exact h
    · intro m ts word fl hm h hfl _
      match m, hm with
      | .line, _ =>
        cases h
        rw [List.append_nil]
        exact hfl
  | cons u rest ih =>
    obtain ⟨ihJson, ihComment⟩ := ih
    constructor
    · intro m ts hm h hts
      match m, hm with
      | .plain word, _ =>
        by_cases hword : isWord u = true
        · have hquote : u ≠ quote := by
            rintro rfl
            exact absurd hword (by decide)
          have hslash : u ≠ slash := by
            rintro rfl
            exact absurd hword (by decide)
          rw [lex_word hword] at h
          rw [Mode.scan, uncommentFrom_outer hquote hslash, lex_word hword]
          exact ihJson _ _ rfl h hts
        · have hflush : ∀ tail : Utf16, ∀ w, (u :: tail).head? = some w → isWord w = false := fun _ w hw =>
            Option.some.inj hw ▸ Bool.eq_false_iff.2 hword
          rw [lex_flush (hflush _)] at h
          obtain ⟨fl, hfl, h⟩ := Option.bind_eq_some_iff.1 h
          obtain ⟨tail, htail, rfl⟩ := Option.map_eq_some_iff.1 h
          have hunjoined : Unjoined tail := hts.right_of_append
          -- a unit that stays ends the number or name just the same
          have hkept : ∀ more : Utf16, lex false (.plain []) (u :: more) = some tail →
              lex false (.plain word) (u :: more) = some (fl ++ tail) := by
            intro more hmore
            rw [lex_flush (hflush _), hfl, hmore]
            rfl
          rcases lex_comments_cases htail hword with ⟨hspace, hmore⟩ | ⟨rfl, hmore⟩ | ⟨rfl, hline, hmore⟩ |
            ⟨rfl, hblock, hmore⟩ | ⟨token, more, htoken, hmore, rfl⟩
          · have hquote : u ≠ quote := by
              rintro rfl
              exact absurd hspace (by decide)
            have hslash : u ≠ slash := by
              rintro rfl
              exact absurd hspace (by decide)
            rw [Mode.scan, uncommentFrom_outer hquote hslash]
            refine hkept _ ?_
            rw [lex_space hspace]
            exact ihJson (.plain []) _ rfl hmore hunjoined
          · rw [Mode.scan, uncommentFrom_outer_cons, if_pos rfl]
            refine hkept _ ?_
            rw [lex_quote]
            exact ihJson (.string []) _ rfl hmore hunjoined
          · rw [Mode.scan, uncommentFrom_outer_cons, if_neg (by decide), if_pos ⟨rfl, hline⟩]
            exact ihComment .line _ _ _ rfl hmore hfl hts
          · rw [Mode.scan, uncommentFrom_outer_cons, if_neg (by decide), if_neg (by simp [hblock]; decide),
              if_pos ⟨rfl, hblock⟩]
            exact ihComment .opening _ _ _ rfl hmore hfl hts
          · obtain ⟨-, -, hquote, hslash⟩ := structural_plain htoken
            rw [Mode.scan, uncommentFrom_outer hquote hslash]
            refine hkept _ ?_
            rw [lex_structural htoken]
            exact Option.map_eq_some_iff.2 ⟨more, ihJson (.plain []) _ rfl hmore hunjoined.tail, rfl⟩
      | .string raw, _ =>
        rw [lex_string_cons] at h
        rw [Mode.scan, uncommentFrom_string, lex_string_cons]
        split at h
        · next hquote =>
          subst hquote
          rw [if_pos rfl, if_neg (by decide), if_pos rfl]
          obtain ⟨s, hs, h⟩ := Option.bind_eq_some_iff.1 h
          obtain ⟨tail, htail, rfl⟩ := Option.map_eq_some_iff.1 h
          rw [hs, Option.bind_some]
          exact Option.map_eq_some_iff.2 ⟨tail, ihJson (.plain []) _ rfl htail hts.tail, rfl⟩
        · next hquote =>
          rw [if_neg hquote, if_neg hquote]
          split at h
          · next hback =>
            rw [if_pos hback, if_pos hback]
            exact ihJson (.escape (raw ++ [u])) ts rfl h hts
          · next hback =>
            rw [if_neg hback, if_neg hback]
            exact ihJson (.string (raw ++ [u])) ts rfl h hts
      | .escape raw, _ => exact ihJson (.string (raw ++ [u])) ts rfl h hts
    · intro m ts word fl hm h hfl hts
      match m, hm with
      | .line, _ =>
        rw [lex_line_cons] at h
        rw [Mode.scan, uncommentFrom_line]
        split at h
        · next hnewline =>
          subst hnewline
          have hrest : lex false (.plain []) (newline :: uncommentFrom .outer rest) = some ts := by
            rw [lex_space (by decide)]
            exact ihJson (.plain []) _ rfl h hts.right_of_append
          exact lex_pending hfl hrest hts
        · next hnewline =>
          rw [if_neg hnewline]
          exact ihComment .line _ _ _ rfl h hfl hts
      | .opening, _ => exact ihComment .block _ _ _ rfl h hfl hts
      | .block, _ =>
        rw [lex_block_cons] at h
        rw [Mode.scan, uncommentFrom_block]
        split at h
        · next hclose =>
          rw [if_pos hclose]
          exact ihComment .closing _ _ _ rfl h hfl hts
        · next hclose =>
          rw [if_neg hclose]
          exact ihComment .block _ _ _ rfl h hfl hts
      | .closing, _ => exact lex_pending hfl (ihJson (.plain []) _ rfl h hts.right_of_append) hts

/-- A text whose tokens would not join has the same tokens without its comments. -/
theorem lex_uncomment (h : lex true (.plain []) t = some ts) (hts : Unjoined ts) :
    lex false (.plain []) (uncomment t) = some ts := (lex_uncommentFrom t).1 (.plain []) ts rfl h hts

end

end Zedspaces.Lib.JsonText
