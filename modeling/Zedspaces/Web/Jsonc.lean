/-
The settings documents' JSON with comments (`stripJsonc`, `parseJsonc`). Comments are taken out and not read as
whitespace, and a trailing comma is looked for behind whitespace alone: `parseJsonc` reads a text as its document unless
a comment stands between a trailing comma and the end it trails, or a text that is no document becomes one without its
comments (`parseJsonc_jsonc`).
-/
import Zedspaces.Lib.JsonText

namespace Zedspaces.Web.JsoncText

open Lib Lib.JsonText Lib.JsonGrammar

def comma : UInt16 := 0x2C

/-- Whether a bracket that closes comes next, past whitespace. -/
def closes (t : Utf16) : Bool :=
  match t.dropWhile isJsSpace with
  | [] => false
  | u :: _ => u = 0x7D || u = 0x5D

/-- The loops of `stripJsonc`, by where they stand. A line comment's end is a unit of the text again. -/
def stripFrom : Scan → Utf16 → Utf16
  | _, [] => []
  | .outer, ch :: rest =>
    if ch = quote then ch :: stripFrom .string rest
    else if ch = slash ∧ rest.head? = some slash then stripFrom .line rest
    else if ch = slash ∧ rest.head? = some star then stripFrom .opening rest
    else if ch = comma ∧ closes rest then stripFrom .outer rest
    else ch :: stripFrom .outer rest
  | .string, ch :: rest =>
    ch :: stripFrom (if ch = backslash then .escape else if ch = quote then .outer else .string) rest
  | .escape, ch :: rest => ch :: stripFrom .string rest
  | .line, ch :: rest => if ch = newline then ch :: stripFrom .outer rest else stripFrom .line rest
  | .opening, _ :: rest => stripFrom .block rest
  | .block, ch :: rest => if ch = star ∧ rest.head? = some slash then stripFrom .closing rest else stripFrom .block rest
  | .closing, _ :: rest => stripFrom .outer rest

def stripJsonc (input : Utf16) : Utf16 := stripFrom .outer input

/-- No result where it throws; `undefined` for a text with nothing in it. -/
def parseJsonc (input : Utf16) : Option (Option (JsonGrammar.Tree Utf16)) :=
  let stripped := trim (stripJsonc input)
  if stripped = [] then some none else (jsonParse stripped).map some

def isJsonc (input : Utf16) : Bool := (parseJsonc input).isSome

/-! ## What is asked of it -/

/-- The text is read as its document, if it is one, and its strings stay as they are. -/
structure ParsesJsonc (input : Utf16) : Prop where
  accepts : ∀ result, parseJsonc input = some result ↔ Jsonc input result
  quoted : quotedFrom false .outer (stripJsonc input) = quotedFrom true .outer input

/-- A comma before a closing bracket, with a comment between them. -/
def hiddenFrom : Scan → Utf16 → Bool
  | _, [] => false
  | .outer, ch :: rest =>
    if ch = quote then hiddenFrom .string rest
    else if ch = slash ∧ rest.head? = some slash then hiddenFrom .line rest
    else if ch = slash ∧ rest.head? = some star then hiddenFrom .opening rest
    else (ch = comma && !closes rest && closes (uncomment rest)) || hiddenFrom .outer rest
  | .string, ch :: rest => hiddenFrom (if ch = backslash then .escape else if ch = quote then .outer else .string) rest
  | .escape, _ :: rest => hiddenFrom .string rest
  | .line, ch :: rest => hiddenFrom (if ch = newline then .outer else .line) rest
  | .opening, _ :: rest => hiddenFrom .block rest
  | .block, ch :: rest => hiddenFrom (if ch = star ∧ rest.head? = some slash then .closing else .block) rest
  | .closing, _ :: rest => hiddenFrom .outer rest

def CommentHidesComma (input : Utf16) : Prop := hiddenFrom .outer input = true

/-- What the text is when its comments are taken out, commas alone between their brackets and whitespace at its ends are
as well. -/
def JsoncMended (input : Utf16) (result : Option (JsonGrammar.Tree Utf16)) : Prop :=
  ∃ ts, lex false (.plain []) (trim (uncomment input)) = some ts ∧ Reads (dropLone ts) result

/-! ## Commas -/

/-- A text without comments, without its trailing commas. -/
def dropCommasFrom : Scan → Utf16 → Utf16
  | .outer, ch :: rest =>
    if ch = quote then ch :: dropCommasFrom .string rest
    else if ch = comma ∧ closes rest then dropCommasFrom .outer rest
    else ch :: dropCommasFrom .outer rest
  | .string, ch :: rest =>
    ch :: dropCommasFrom (if ch = backslash then .escape else if ch = quote then .outer else .string) rest
  | .escape, ch :: rest => ch :: dropCommasFrom .string rest
  | _, t => t

/-- A trailing comma is left in a text without comments. -/
def looseFrom : Scan → Utf16 → Bool
  | .outer, ch :: rest =>
    if ch = quote then looseFrom .string rest else (ch = comma && closes rest) || looseFrom .outer rest
  | .string, ch :: rest => looseFrom (if ch = backslash then .escape else if ch = quote then .outer else .string) rest
  | .escape, _ :: rest => looseFrom .string rest
  | _, _ => false

/-- The scan of what is left of a text without its comments. -/
def plainScan : Scan → Scan
  | .string => .string
  | .escape => .escape
  | .outer | .line | .opening | .block | .closing => .outer

section
variable {ch : UInt16} {rest t ws : Utf16} {sc : Scan}

theorem stripFrom_outer : stripFrom .outer (ch :: rest) =
    if ch = quote then ch :: stripFrom .string rest
    else if ch = slash ∧ rest.head? = some slash then stripFrom .line rest
    else if ch = slash ∧ rest.head? = some star then stripFrom .opening rest
    else if ch = comma ∧ closes rest then stripFrom .outer rest
    else ch :: stripFrom .outer rest := rfl

theorem stripFrom_string : stripFrom .string (ch :: rest) =
    ch :: stripFrom (if ch = backslash then .escape else if ch = quote then .outer else .string) rest := rfl

theorem stripFrom_escape : stripFrom .escape (ch :: rest) = ch :: stripFrom .string rest := rfl

theorem stripFrom_line : stripFrom .line (ch :: rest) =
    if ch = newline then ch :: stripFrom .outer rest else stripFrom .line rest := rfl

theorem stripFrom_block : stripFrom .block (ch :: rest) =
    if ch = star ∧ rest.head? = some slash then stripFrom .closing rest else stripFrom .block rest := rfl

theorem hiddenFrom_outer : hiddenFrom .outer (ch :: rest) =
    if ch = quote then hiddenFrom .string rest
    else if ch = slash ∧ rest.head? = some slash then hiddenFrom .line rest
    else if ch = slash ∧ rest.head? = some star then hiddenFrom .opening rest
    else (ch = comma && !closes rest && closes (uncomment rest)) || hiddenFrom .outer rest := rfl

theorem hiddenFrom_line : hiddenFrom .line (ch :: rest) =
    hiddenFrom (if ch = newline then .outer else .line) rest := rfl

theorem hiddenFrom_block : hiddenFrom .block (ch :: rest) =
    hiddenFrom (if ch = star ∧ rest.head? = some slash then .closing else .block) rest := rfl

theorem dropCommasFrom_outer_cons : dropCommasFrom .outer (ch :: rest) =
    if ch = quote then ch :: dropCommasFrom .string rest
    else if ch = comma ∧ closes rest then dropCommasFrom .outer rest
    else ch :: dropCommasFrom .outer rest := rfl

theorem dropCommasFrom_string : dropCommasFrom .string (ch :: rest) =
    ch :: dropCommasFrom (if ch = backslash then .escape else if ch = quote then .outer else .string) rest := rfl

theorem dropCommasFrom_escape : dropCommasFrom .escape (ch :: rest) = ch :: dropCommasFrom .string rest := rfl

theorem looseFrom_outer : looseFrom .outer (ch :: rest) =
    if ch = quote then looseFrom .string rest else (ch = comma && closes rest) || looseFrom .outer rest := rfl

theorem looseFrom_string : looseFrom .string (ch :: rest) =
    looseFrom (if ch = backslash then .escape else if ch = quote then .outer else .string) rest := rfl

theorem closes_space (h : isJsSpace ch = true) : closes (ch :: rest) = closes rest := by
  rw [closes, List.dropWhile_cons_of_pos h, closes]

theorem closes_cons (h : isJsSpace ch = false) : closes (ch :: rest) = (ch = 0x7D || ch = 0x5D) := by
  rw [closes, List.dropWhile_cons_of_neg (by simp [h])]

/-- What comes next closes, or is whitespace before what does. -/
theorem closes_cases (h : closes (ch :: rest) = true) :
    (isJsSpace ch = true ∧ closes rest = true) ∨ (isJsSpace ch = false ∧ (ch = 0x7D ∨ ch = 0x5D)) := by
  cases hspace : isJsSpace ch with
  | true => exact .inl ⟨rfl, closes_space hspace ▸ h⟩
  | false =>
    rw [closes_cons hspace, Bool.or_eq_true, decide_eq_true_eq, decide_eq_true_eq] at h
    exact .inr ⟨rfl, h⟩

/-- A unit that comes before a bracket that closes, or is one, is none that the scan stops at. -/
theorem ne_of_closes {v : UInt16} (h : closes (ch :: rest) = true) (hv : isJsSpace v = false)
    (hv' : v ≠ 0x7D ∧ v ≠ 0x5D) : ch ≠ v := by
  rintro rfl
  rcases closes_cases h with ⟨hspace, -⟩ | ⟨-, rfl | rfl⟩
  · rw [hspace] at hv
    cases hv
  · exact hv'.1 rfl
  · exact hv'.2 rfl

/-- Taking comments out keeps what comes next past whitespace. -/
theorem closes_uncomment (h : closes t = true) : closes (uncommentFrom .outer t) = true := by
  induction t with
  | nil => cases h
  | cons ch rest ih =>
    have hquote : ch ≠ quote := ne_of_closes h (by decide) (by decide)
    have hslash : ch ≠ slash := ne_of_closes h (by decide) (by decide)
    rw [uncommentFrom_outer hquote hslash]
    rcases closes_cases h with ⟨hspace, hrest⟩ | ⟨hspace, hch⟩
    · rw [closes_space hspace]
      exact ih hrest
    · rw [closes_cons hspace]
      simpa using hch

theorem plainScan_string : plainScan (if ch = backslash then .escape else if ch = quote then .outer else .string) =
    if ch = backslash then .escape else if ch = quote then .outer else .string := by
  split
  · rfl
  · split <;> rfl

/-- Where no comment hides a comma, the text is stripped of its comments and then of its trailing commas. -/
theorem stripFrom_eq (h : hiddenFrom sc t = false) :
    stripFrom sc t = dropCommasFrom (plainScan sc) (uncommentFrom sc t) := by
  induction t generalizing sc with
  | nil => cases sc <;> rfl
  | cons ch rest ih =>
    cases sc with
    | outer =>
      rw [hiddenFrom_outer] at h
      rw [stripFrom_outer, uncommentFrom_outer_cons]
      split at h
      · next hquote =>
        rw [if_pos hquote, if_pos hquote, plainScan, dropCommasFrom_outer_cons, if_pos hquote, ih h]
        rfl
      · next hquote =>
        rw [if_neg hquote, if_neg hquote]
        split at h
        · next hline =>
          rw [if_pos hline, if_pos hline]
          exact ih h
        · next hline =>
          rw [if_neg hline, if_neg hline]
          split at h
          · next hblock =>
            rw [if_pos hblock, if_pos hblock]
            exact ih h
          · next hblock =>
            rw [if_neg hblock, if_neg hblock, plainScan, dropCommasFrom_outer_cons, if_neg hquote]
            obtain ⟨hhere, hlater⟩ := Bool.or_eq_false_iff.1 h
            have hcloses : ch = comma → closes (uncommentFrom .outer rest) = closes rest := by
              rintro rfl
              cases hrest : closes rest with
              | true => exact closes_uncomment hrest
              | false => simpa [hrest, uncomment] using hhere
            by_cases hcomma : ch = comma ∧ closes rest = true
            · rw [if_pos hcomma, if_pos ⟨hcomma.1, (hcloses hcomma.1).trans hcomma.2⟩]
              exact ih hlater
            · rw [if_neg hcomma, if_neg fun h => hcomma ⟨h.1, (hcloses h.1).symm.trans h.2⟩, ih hlater]
              rfl
    | string =>
      rw [stripFrom_string, uncommentFrom_string, plainScan, dropCommasFrom_string, ih h, plainScan_string]
    | escape =>
      rw [stripFrom_escape, uncommentFrom, plainScan, dropCommasFrom_escape, ih h]
      rfl
    | line =>
      rw [hiddenFrom_line] at h
      rw [stripFrom_line, uncommentFrom_line]
      split at h
      · next hnewline =>
        subst hnewline
        rw [if_pos rfl, if_pos rfl, plainScan, dropCommasFrom_outer_cons, if_neg (by decide),
          if_neg (fun h => by cases h.1), ih h]
        rfl
      · next hnewline =>
        rw [if_neg hnewline, if_neg hnewline]
        exact ih h
    | opening => exact @ih .block h
    | block =>
      rw [hiddenFrom_block] at h
      rw [stripFrom_block, uncommentFrom_block]
      split at h
      · next hclose =>
        rw [if_pos hclose, if_pos hclose]
        exact ih h
      · next hclose =>
        rw [if_neg hclose, if_neg hclose]
        exact ih h
    | closing => exact @ih .outer h

/-- What closes behind a unit that stays closes it. -/
theorem closes_congr {t' : Utf16} (h : closes (ch :: t) = true) (hrest : closes t = true → closes t' = true) :
    closes (ch :: t') = true := by
  rcases closes_cases h with ⟨hspace, ht⟩ | ⟨hspace, hch⟩
  · rw [closes_space hspace]
    exact hrest ht
  · rw [closes_cons hspace]
    simpa using hch

/-- What closes without the comments closes in the stripped text. -/
theorem closes_stripFrom (h : closes (uncommentFrom sc t) = true) : closes (stripFrom sc t) = true := by
  induction t generalizing sc with
  | nil => cases sc <;> exact h
  | cons ch rest ih =>
    cases sc with
    | outer =>
      rw [uncommentFrom_outer_cons] at h
      rw [stripFrom_outer]
      split at h
      · next hquote =>
        rw [if_pos hquote]
        exact closes_congr h ih
      · next hquote =>
        rw [if_neg hquote]
        split at h
        · next hline =>
          rw [if_pos hline]
          exact ih h
        · next hline =>
          rw [if_neg hline]
          split at h
          · next hblock =>
            rw [if_pos hblock]
            exact ih h
          · next hblock =>
            have hcomma : ch ≠ comma := ne_of_closes h (by decide) (by decide)
            rw [if_neg hblock, if_neg fun h => hcomma h.1]
            exact closes_congr h ih
    | string => exact closes_congr h ih
    | escape => exact closes_congr h ih
    | line =>
      rw [uncommentFrom_line] at h
      rw [stripFrom_line]
      split at h
      · next hnewline =>
        rw [if_pos hnewline]
        exact closes_congr h ih
      · next hnewline =>
        rw [if_neg hnewline]
        exact ih h
    | opening => exact @ih .block h
    | block =>
      rw [uncommentFrom_block] at h
      rw [stripFrom_block]
      split at h
      · next hclose =>
        rw [if_pos hclose]
        exact ih h
      · next hclose =>
        rw [if_neg hclose]
        exact ih h
    | closing => exact @ih .outer h

/-- A comma that a comment hides is left before the bracket. -/
theorem looseFrom_stripFrom (h : hiddenFrom sc t = true) : looseFrom (plainScan sc) (stripFrom sc t) = true := by
  induction t generalizing sc with
  | nil => cases sc <;> cases h
  | cons ch rest ih =>
    cases sc with
    | outer =>
      rw [hiddenFrom_outer] at h
      rw [stripFrom_outer]
      split at h
      · next hquote =>
        rw [if_pos hquote, plainScan, looseFrom_outer, if_pos hquote]
        exact @ih .string h
      · next hquote =>
        rw [if_neg hquote]
        split at h
        · next hline =>
          rw [if_pos hline]
          exact @ih .line h
        · next hline =>
          rw [if_neg hline]
          split at h
          · next hblock =>
            rw [if_pos hblock]
            exact @ih .opening h
          · next hblock =>
            rw [if_neg hblock]
            by_cases hcomma : ch = comma ∧ closes rest = true
            · -- this one is taken out, so that the hidden one comes later
              rw [if_pos hcomma]
              refine @ih .outer ((Bool.or_eq_true _ _ ▸ h).resolve_left fun hhere => ?_)
              simp [hcomma.2] at hhere
            · rw [if_neg hcomma, plainScan, looseFrom_outer, if_neg hquote, Bool.or_eq_true]
              rcases Bool.or_eq_true _ _ ▸ h with hhere | hlater
              · simp only [Bool.and_eq_true, decide_eq_true_eq] at hhere
                exact .inl (by simp [hhere.1.1, closes_stripFrom hhere.2])
              · exact .inr (@ih .outer hlater)
    | string =>
      have hrest := ih h
      rw [plainScan_string] at hrest
      exact hrest
    | escape => exact @ih .string h
    | line =>
      rw [hiddenFrom_line] at h
      rw [stripFrom_line]
      split at h
      · next hnewline =>
        subst hnewline
        rw [if_pos rfl, plainScan, looseFrom_outer, if_neg (by decide), Bool.or_eq_true]
        exact .inr (@ih .outer h)
      · next hnewline =>
        rw [if_neg hnewline]
        exact @ih .line h
    | opening => exact @ih .block h
    | block =>
      rw [hiddenFrom_block] at h
      rw [stripFrom_block]
      split at h
      · next hclose =>
        rw [if_pos hclose]
        exact @ih .closing h
      · next hclose =>
        rw [if_neg hclose]
        exact @ih .block h
    | closing => exact @ih .outer h

/-- The strings stay as they are. -/
theorem quotedFrom_stripFrom : quotedFrom false (plainScan sc) (stripFrom sc t) = quotedFrom true sc t := by
  induction t generalizing sc with
  | nil => cases sc <;> rfl
  | cons ch rest ih =>
    cases sc with
    | outer =>
      rw [stripFrom_outer, quotedFrom]
      by_cases hquote : ch = quote
      · rw [if_pos hquote, if_pos hquote, plainScan, quotedFrom, if_pos hquote, ← @ih .string]
        rfl
      · rw [if_neg hquote, if_neg hquote]
        by_cases hline : ch = slash ∧ rest.head? = some slash
        · rw [if_pos hline, if_pos ⟨rfl, hline⟩]
          exact @ih .line
        · have hline' : ¬ (true = true ∧ ch = slash ∧ rest.head? = some slash) := fun h => hline h.2
          rw [if_neg hline, if_neg hline']
          by_cases hblock : ch = slash ∧ rest.head? = some star
          · rw [if_pos hblock, if_pos ⟨rfl, hblock⟩]
            exact @ih .opening
          · have hblock' : ¬ (true = true ∧ ch = slash ∧ rest.head? = some star) := fun h => hblock h.2
            rw [if_neg hblock, if_neg hblock']
            by_cases hcomma : ch = comma ∧ closes rest = true
            · rw [if_pos hcomma]
              exact @ih .outer
            · rw [if_neg hcomma, plainScan, quotedFrom, if_neg hquote, if_neg (by simp), if_neg (by simp)]
              exact @ih .outer
    | string =>
      rw [stripFrom_string, quotedFrom, plainScan, quotedFrom, ← ih, plainScan_string]
    | escape =>
      rw [stripFrom_escape, quotedFrom, plainScan, quotedFrom, ← @ih .string]
      rfl
    | line =>
      rw [stripFrom_line, quotedFrom]
      split
      · next hnewline =>
        subst hnewline
        rw [plainScan, quotedFrom, if_neg (by decide), if_neg (by simp), if_neg (by simp)]
        exact @ih .outer
      · exact @ih .line
    | opening => exact @ih .block
    | block =>
      rw [stripFrom_block, quotedFrom]
      split
      · exact @ih .closing
      · exact @ih .block
    | closing => exact @ih .outer

end

/-! ## Its tokens -/

/-- No comma stands before a bracket that closes. -/
def Tight (ts : List Token) : Prop := ts.IsChain fun t u => ¬ (t.isComma = true ∧ u.closes = true)

section
variable {ch : UInt16} {word raw rest t : Utf16} {ts fl : List Token} {m : Mode}

theorem structural_closes {token : Token} (h : structural ch = some token) :
    token.closes = (ch = 0x7D || ch = 0x5D) ∧ token.isComma = decide (ch = comma) ∧ isJsSpace ch = false := by
  obtain ⟨rfl, rfl⟩ | ⟨rfl, rfl⟩ | ⟨rfl, rfl⟩ | ⟨rfl, rfl⟩ | ⟨rfl, rfl⟩ | ⟨rfl, rfl⟩ := structural_cases h <;> decide

theorem word_plain (h : isWord ch = true) : ch ≠ quote ∧ ch ≠ comma ∧ isJsSpace ch = false ∧
    (ch = 0x7D || ch = 0x5D) = false := by
  refine ⟨?_, ?_, ?_, ?_⟩
  · rintro rfl
    exact absurd h (by decide)
  · rintro rfl
    exact absurd h (by decide)
  · exact Bool.eq_false_iff.2 fun hspace => by simp [not_word_of_jsSpace hspace] at h
  · refine Bool.eq_false_iff.2 fun hclose => ?_
    rcases Bool.or_eq_true _ _ ▸ hclose with heq | heq
    · exact absurd (of_decide_eq_true heq ▸ h) (by decide)
    · exact absurd (of_decide_eq_true heq ▸ h) (by decide)

/-- What comes next past whitespace closes if the first token does. -/
theorem lex_closes (h : lex false (.plain []) t = some ts) : closesNext ts = closes t := by
  induction t generalizing ts with
  | nil =>
    cases h
    rfl
  | cons ch rest ih =>
    rcases lex_cases h with ⟨hword, hrest⟩ | ⟨hspace, hrest⟩ | ⟨rfl, hrest⟩ | ⟨token, tail, htoken, hrest, rfl⟩
    · obtain ⟨-, -, hspace, hclose⟩ := word_plain hword
      obtain ⟨s, tail, rfl⟩ := lex_word_head (List.cons_ne_nil ch []) hrest
      rw [closes_cons hspace, hclose]
      rfl
    · rw [closes_space (jsSpace_of_space hspace)]
      exact ih hrest
    · obtain ⟨s, tail, rfl⟩ := lex_string_head (.inl hrest)
      rfl
    · obtain ⟨hcloses, -, hspace⟩ := structural_closes htoken
      rw [closes_cons hspace, ← hcloses]
      rfl

theorem flush_cases (h : flush word = some fl) : fl = [] ∨ ∃ s, fl = [.scalar s] := by
  unfold flush at h
  split at h
  · exact .inl (Option.some.inj h).symm
  · exact .inr ⟨word, (Option.some.inj (Option.ite_none_right_eq_some.1 h).2).symm⟩

theorem erase_flush (h : flush word = some fl) : erase (fl ++ ts) = fl ++ erase ts := by
  rcases flush_cases h with rfl | ⟨s, rfl⟩
  · rfl
  · exact erase_cons Bool.noConfusion

/-- A text that keeps its first unit when its trailing commas are taken out. -/
theorem dropCommasFrom_outer (hquote : ch ≠ quote) (hcomma : ¬ (ch = comma ∧ closes rest = true)) :
    dropCommasFrom .outer (ch :: rest) = ch :: dropCommasFrom .outer rest := by
  rw [dropCommasFrom_outer_cons, if_neg hquote, if_neg hcomma]

theorem closes_dropCommasFrom (h : closes t = true) : closes (dropCommasFrom .outer t) = true := by
  induction t with
  | nil => exact h
  | cons ch rest ih =>
    have hquote : ch ≠ quote := ne_of_closes h (by decide) (by decide)
    have hcomma : ch ≠ comma := ne_of_closes h (by decide) (by decide)
    rw [dropCommasFrom_outer hquote fun h => hcomma h.1]
    exact closes_congr h ih

/-- A text that goes on with a bracket that closes has no number or name first. -/
theorem not_word_of_closes (h : closes t = true) : ∀ u, t.head? = some u → isWord u = false := by
  rintro u hu
  obtain ⟨rest, rfl⟩ := List.head?_eq_some_iff.1 hu
  refine Bool.eq_false_iff.2 fun hword => ?_
  obtain ⟨-, -, hspace, hclose⟩ := word_plain hword
  rw [closes_cons hspace, hclose] at h
  cases h

/-- A unit that is in no number or name. -/
theorem lex_dropCommasFrom_cons (hword : ¬ isWord ch = true)
    (hplain : lex false (.plain []) (dropCommasFrom .outer rest) = (lex false (.plain []) rest).map erase)
    (hstring : lex false (.string []) (dropCommasFrom .string rest) = (lex false (.string []) rest).map erase) :
    lex false (.plain []) (dropCommasFrom .outer (ch :: rest)) = (lex false (.plain []) (ch :: rest)).map erase := by
  by_cases hquote : ch = quote
  · subst hquote
    rw [dropCommasFrom_outer_cons, if_pos rfl, lex_quote, lex_quote]
    exact hstring
  · by_cases hcomma : ch = comma ∧ closes rest = true
    · obtain ⟨rfl, hcloses⟩ := hcomma
      have hlex : lex false (.plain []) (comma :: rest) = (lex false (.plain []) rest).map (.comma :: ·) :=
        lex_structural rfl
      rw [dropCommasFrom_outer_cons, if_neg hquote, if_pos ⟨rfl, hcloses⟩, hplain, hlex]
      cases hrest : lex false (.plain []) rest with
      | none => rfl
      | some tail =>
        have hnext : closesNext tail = true := (lex_closes hrest).trans hcloses
        exact congrArg some (if_pos hnext).symm
    · rw [dropCommasFrom_outer hquote hcomma]
      rcases unit_cases ch with hw | hspace | hq | ⟨token, htoken⟩ | hnone
      · exact absurd hw hword
      · rw [lex_space hspace, lex_space hspace]
        exact hplain
      · exact absurd hq hquote
      · rw [lex_structural htoken, lex_structural htoken, hplain]
        cases hrest : lex false (.plain []) rest with
        | none => rfl
        | some tail =>
          refine congrArg some (erase_cons fun h => ?_).symm
          obtain ⟨htoken, hnext⟩ := Bool.and_eq_true_iff.1 h
          rw [(structural_closes ‹_›).2.1] at htoken
          exact hcomma ⟨of_decide_eq_true htoken, (lex_closes hrest).symm.trans hnext⟩
      · rw [hnone, hnone]
        rfl

/-- The trailing commas of a text are those of its tokens. -/
theorem lex_dropCommasFrom (hm : m.isJson = true) :
    lex false m (dropCommasFrom m.scan t) = (lex false m t).map erase := by
  induction t generalizing m with
  | nil =>
    match m, hm with
    | .plain word, _ =>
      cases hfl : flush word with
      | none => simp [lex, dropCommasFrom, Mode.scan, hfl]
      | some fl =>
        have herase := @erase_flush word [] fl hfl
        rw [List.append_nil] at herase
        simp [lex, dropCommasFrom, Mode.scan, hfl, herase, erase]
    | .string raw, _ => rfl
    | .escape raw, _ => rfl
  | cons ch rest ih =>
    match m, hm with
    | .plain word, _ =>
      by_cases hword : isWord ch = true
      · obtain ⟨hquote, hcomma, -, -⟩ := word_plain hword
        rw [Mode.scan, dropCommasFrom_outer hquote fun h => hcomma h.1, lex_word hword, lex_word hword]
        exact @ih (.plain (word ++ [ch])) rfl
      · have hcons := lex_dropCommasFrom_cons hword (@ih (.plain []) rfl) (@ih (.string []) rfl)
        have hhead : ∀ u, (dropCommasFrom .outer (ch :: rest)).head? = some u → isWord u = false := by
          intro u hu
          rw [dropCommasFrom_outer_cons] at hu
          split at hu
          · exact Option.some.inj hu ▸ Bool.eq_false_iff.2 hword
          · split at hu
            · next hcomma => exact not_word_of_closes (closes_dropCommasFrom hcomma.2) u hu
            · exact Option.some.inj hu ▸ Bool.eq_false_iff.2 hword
        have hhead' : ∀ u, (ch :: rest).head? = some u → isWord u = false := fun u hu =>
          Option.some.inj hu ▸ Bool.eq_false_iff.2 hword
        rw [Mode.scan, lex_flush hhead, lex_flush hhead', hcons]
        cases hfl : flush word with
        | none => rfl
        | some fl =>
          cases lex false (.plain []) (ch :: rest) with
          | none => rfl
          | some tail => exact congrArg some (erase_flush hfl).symm
    | .string raw, _ =>
      rw [Mode.scan, dropCommasFrom_string, lex_string_cons, lex_string_cons]
      by_cases hquote : ch = quote
      · subst hquote
        rw [if_pos rfl, if_pos rfl, if_neg (by decide), if_pos rfl]
        have hrest : lex false (.plain []) (dropCommasFrom .outer rest) = (lex false (.plain []) rest).map erase :=
          @ih (.plain []) rfl
        rw [hrest]
        cases decode raw with
        | none => rfl
        | some s =>
          cases lex false (.plain []) rest with
          | none => rfl
          | some tail => exact congrArg some (erase_cons Bool.noConfusion).symm
      · rw [if_neg hquote, if_neg hquote, if_neg hquote]
        by_cases hback : ch = backslash
        · rw [if_pos hback, if_pos hback, if_pos hback]
          exact @ih (.escape (raw ++ [ch])) rfl
        · rw [if_neg hback, if_neg hback, if_neg hback]
          exact @ih (.string (raw ++ [ch])) rfl
    | .escape raw, _ => exact @ih (.string (raw ++ [ch])) rfl

/-- A text whose tokens have no trailing comma has none. -/
theorem looseFrom_of_tight (hm : m.isJson = true) (h : lex false m t = some ts) (hts : Tight ts) :
    looseFrom m.scan t = false := by
  induction t generalizing m ts with
  | nil => cases m <;> rfl
  | cons ch rest ih =>
    match m, hm with
    | .plain word, _ =>
      by_cases hword : isWord ch = true
      · obtain ⟨hquote, hcomma, -, -⟩ := word_plain hword
        rw [lex_word hword] at h
        have hrest : looseFrom .outer rest = false := @ih ts (.plain (word ++ [ch])) rfl h hts
        rw [Mode.scan, looseFrom_outer, if_neg hquote, hrest]
        simp [hcomma]
      · have hhead : ∀ u, (ch :: rest).head? = some u → isWord u = false := fun u hu =>
          Option.some.inj hu ▸ Bool.eq_false_iff.2 hword
        rw [lex_flush hhead] at h
        obtain ⟨fl, -, h⟩ := Option.bind_eq_some_iff.1 h
        obtain ⟨tail, htail, rfl⟩ := Option.map_eq_some_iff.1 h
        have htight : Tight tail := hts.right_of_append
        rw [Mode.scan, looseFrom_outer]
        rcases lex_cases htail with ⟨hw, -⟩ | ⟨hspace, hmore⟩ | ⟨rfl, hmore⟩ | ⟨token, more, htoken, hmore, rfl⟩
        · exact absurd hw hword
        · have hch := jsSpace_of_space hspace
          have hrest : looseFrom .outer rest = false := @ih tail (.plain []) rfl hmore htight
          rw [if_neg (ne_of_jsSpace hch (by decide)), hrest]
          simp [ne_of_jsSpace hch (show isJsSpace comma = false by decide)]
        · rw [if_pos rfl]
          exact @ih tail (.string []) rfl hmore htight
        · have hrest : looseFrom .outer rest = false := @ih more (.plain []) rfl hmore htight.tail
          rw [if_neg (structural_plain htoken).2.2.1, hrest, Bool.or_false]
          refine Bool.eq_false_iff.2 fun hloose => ?_
          obtain ⟨hcomma, hcloses⟩ := Bool.and_eq_true_iff.1 hloose
          obtain ⟨u, hu, hu'⟩ := (Option.any_eq_true _ _).1 ((lex_closes hmore).trans hcloses)
          exact (List.isChain_cons.1 htight).1 u hu ⟨(structural_closes htoken).2.1.trans hcomma, hu'⟩
    | .string raw, _ =>
      rw [lex_string_cons] at h
      rw [Mode.scan, looseFrom_string]
      split at h
      · next hquote =>
        subst hquote
        obtain ⟨s, -, h⟩ := Option.bind_eq_some_iff.1 h
        obtain ⟨tail, htail, rfl⟩ := Option.map_eq_some_iff.1 h
        rw [if_neg (by decide), if_pos rfl]
        exact @ih tail (.plain []) rfl htail hts.tail
      · next hquote =>
        split at h
        · next hback =>
          rw [if_pos hback]
          exact @ih ts (.escape (raw ++ [ch])) rfl h hts
        · next hback =>
          rw [if_neg hback, if_neg hquote]
          exact @ih ts (.string (raw ++ [ch])) rfl h hts
    | .escape raw, _ => exact @ih ts (.string (raw ++ [ch])) rfl h hts

end

/-! ## Whitespace at its ends -/

section
variable {ch : UInt16} {rest t ws : Utf16} {sc : Scan}

theorem closes_append (hws : ∀ u ∈ ws, isJsSpace u = true) : closes (t ++ ws) = closes t := by
  have hnone : closes ws = false := by
    rw [closes, List.dropWhile_eq_nil_iff.2 hws]
  induction t with
  | nil => exact hnone
  | cons ch rest ih =>
    cases hspace : isJsSpace ch with
    | true => rw [List.cons_append, closes_space hspace, closes_space hspace, ih]
    | false => rw [List.cons_append, closes_cons hspace, closes_cons hspace]

theorem dropCommasFrom_before (hws : ∀ u ∈ ws, isJsSpace u = true) :
    dropCommasFrom .outer (ws ++ t) = ws ++ dropCommasFrom .outer t := by
  induction ws with
  | nil => rfl
  | cons ch rest ih =>
    obtain ⟨hch, hrest⟩ := List.forall_mem_cons.1 hws
    have hcomma : ch ≠ comma := ne_of_jsSpace hch (by decide)
    rw [List.cons_append, dropCommasFrom_outer (ne_of_jsSpace hch (by decide)) fun h => hcomma h.1, ih hrest]
    rfl

theorem looseFrom_before (hws : ∀ u ∈ ws, isJsSpace u = true) : looseFrom .outer (ws ++ t) = looseFrom .outer t := by
  induction ws with
  | nil => rfl
  | cons ch rest ih =>
    obtain ⟨hch, hrest⟩ := List.forall_mem_cons.1 hws
    have hcomma : ch ≠ comma := ne_of_jsSpace hch (by decide)
    rw [List.cons_append, looseFrom_outer, if_neg (ne_of_jsSpace hch (by decide)), ih hrest]
    simp [hcomma]

theorem dropCommasFrom_space (hws : ∀ u ∈ ws, isJsSpace u = true) : dropCommasFrom sc ws = ws := by
  induction ws generalizing sc with
  | nil => cases sc <;> rfl
  | cons ch rest ih =>
    obtain ⟨hch, hrest⟩ := List.forall_mem_cons.1 hws
    have hcomma : ch ≠ comma := ne_of_jsSpace hch (by decide)
    cases sc with
    | outer => rw [dropCommasFrom_outer (ne_of_jsSpace hch (by decide)) fun h => hcomma h.1, ih hrest]
    | string => rw [dropCommasFrom_string, ih hrest]
    | escape => rw [dropCommasFrom_escape, ih hrest]
    | _ => rfl

theorem looseFrom_space (hws : ∀ u ∈ ws, isJsSpace u = true) : looseFrom sc ws = false := by
  induction ws generalizing sc with
  | nil => cases sc <;> rfl
  | cons ch rest ih =>
    obtain ⟨hch, hrest⟩ := List.forall_mem_cons.1 hws
    have hcomma : ch ≠ comma := ne_of_jsSpace hch (by decide)
    cases sc with
    | outer =>
      rw [looseFrom_outer, if_neg (ne_of_jsSpace hch (by decide)), ih hrest]
      simp [hcomma]
    | string => exact ih hrest
    | escape => exact ih hrest
    | _ => rfl

theorem dropCommasFrom_after (hws : ∀ u ∈ ws, isJsSpace u = true) :
    dropCommasFrom sc (t ++ ws) = dropCommasFrom sc t ++ ws := by
  induction t generalizing sc with
  | nil =>
    rw [List.nil_append, dropCommasFrom_space hws]
    cases sc <;> rfl
  | cons ch rest ih =>
    cases sc with
    | outer =>
      rw [List.cons_append, dropCommasFrom_outer_cons, dropCommasFrom_outer_cons, closes_append hws, ih, ih]
      split
      · rfl
      · split <;> rfl
    | string => rw [List.cons_append, dropCommasFrom_string, dropCommasFrom_string, ih]; rfl
    | escape => rw [List.cons_append, dropCommasFrom_escape, dropCommasFrom_escape, ih]; rfl
    | _ => rfl

theorem looseFrom_after (hws : ∀ u ∈ ws, isJsSpace u = true) : looseFrom sc (t ++ ws) = looseFrom sc t := by
  induction t generalizing sc with
  | nil =>
    rw [List.nil_append, looseFrom_space hws]
    cases sc <;> rfl
  | cons ch rest ih =>
    cases sc with
    | outer => rw [List.cons_append, looseFrom_outer, looseFrom_outer, closes_append hws, ih, ih]
    | string => exact ih
    | escape => exact ih
    | _ => rfl

/-- Trimming first or last comes to the same. -/
theorem trim_dropCommasFrom (t : Utf16) : trim (dropCommasFrom .outer t) = trim (dropCommasFrom .outer (trim t)) := by
  obtain ⟨before, after, heq, hbefore, hafter⟩ := trim_spec t
  conv_lhs => rw [heq]
  rw [dropCommasFrom_before hbefore, dropCommasFrom_after hafter, trim_before hbefore, trim_after hafter]

theorem looseFrom_trim (t : Utf16) : looseFrom .outer t = looseFrom .outer (trim t) := by
  obtain ⟨before, after, heq, hbefore, hafter⟩ := trim_spec t
  conv_lhs => rw [heq]
  rw [looseFrom_before hbefore, looseFrom_after hafter]

theorem dropCommasFrom_nil : dropCommasFrom sc [] = [] := by cases sc <;> rfl

/-- The last unit stays. -/
theorem dropCommasFrom_concat (t : Utf16) : ∃ init, dropCommasFrom sc (t ++ [ch]) = init ++ [ch] := by
  induction t generalizing sc with
  | nil =>
    refine ⟨[], ?_⟩
    cases sc with
    | outer =>
      rw [List.nil_append, dropCommasFrom_outer_cons]
      split
      · rfl
      · exact if_neg fun h => Bool.noConfusion h.2
    | string => rw [List.nil_append, dropCommasFrom_string, dropCommasFrom_nil]
    | escape => rfl
    | _ => rfl
  | cons u rest ih =>
    cases sc with
    | outer =>
      rw [List.cons_append, dropCommasFrom_outer_cons]
      split
      · obtain ⟨init, hinit⟩ := @ih .string
        exact ⟨u :: init, by rw [hinit]; rfl⟩
      · obtain ⟨init, hinit⟩ := @ih .outer
        split
        · exact ⟨init, hinit⟩
        · exact ⟨u :: init, by rw [hinit]; rfl⟩
    | string =>
      obtain ⟨init, hinit⟩ := ih
      exact ⟨u :: init, by rw [List.cons_append, dropCommasFrom_string, hinit]; rfl⟩
    | escape =>
      obtain ⟨init, hinit⟩ := @ih .string
      exact ⟨u :: init, by rw [List.cons_append, dropCommasFrom_escape, hinit]; rfl⟩
    | _ => exact ⟨u :: rest, rfl⟩

end

/-! ## What it is read as -/

section
variable {input t : Utf16} {ch : UInt16} {result result' : Option (JsonGrammar.Tree Utf16)} {ts : List Token}

theorem reads_iff : Reads ts result ↔ ts = [] ∧ result = none ∨ ∃ v, result = some v ∧ read true ts = some v := by
  simp only [Reads, read_iff]

theorem reads_unique (h : Reads ts result) (h' : Reads ts result') : result = result' := by
  rw [reads_iff] at h h'
  rcases h with ⟨rfl, rfl⟩ | ⟨v, rfl, hv⟩
  · rcases h' with ⟨-, rfl⟩ | ⟨v', -, hv'⟩
    · rfl
    · cases hv'
  · rcases h' with ⟨rfl, -⟩ | ⟨v', rfl, hv'⟩
    · cases hv
    · rw [hv] at hv'
      exact hv'

theorem mended_unique (h : JsoncMended input result) (h' : JsoncMended input result') : result = result' := by
  obtain ⟨ts, hts, hreads⟩ := h
  obtain ⟨ts', hts', hreads'⟩ := h'
  cases hts.symm.trans hts'
  exact reads_unique hreads hreads'

/-- A document is what it is without its comments. -/
theorem jsonc_mended (h : Jsonc input result) : JsoncMended input result := by
  obtain ⟨ts, hts, hreads⟩ := h
  have hsame : Unjoined ts ∧ dropLone ts = ts := by
    rcases reads_iff.1 hreads with ⟨rfl, -⟩ | ⟨v, -, hv⟩
    · exact ⟨.nil, rfl⟩
    · exact ⟨not_scalar_scalar hv, dropLone_of_run hv⟩
  exact ⟨ts, lex_trim (lex_uncomment hts hsame.1), hsame.2.symm ▸ hreads⟩

/-- A trailing comma that is left is not read. -/
theorem parseJsonc_of_hidden (h : CommentHidesComma input) : parseJsonc input = none := by
  have hloose : looseFrom .outer (trim (stripJsonc input)) = true :=
    (looseFrom_trim _).symm.trans (looseFrom_stripFrom h)
  rw [parseJsonc]
  split
  · next hempty =>
    rw [hempty] at hloose
    cases hloose
  · rw [Option.map_eq_none_iff, Option.eq_none_iff_forall_ne_some]
    intro v hv
    obtain ⟨ts, hts, hread⟩ := Option.bind_eq_some_iff.1 hv
    have htight := @looseFrom_of_tight _ _ (.plain []) rfl hts (not_comma_closes hread)
    rw [Mode.scan, hloose] at htight
    cases htight

/-- A text that begins with a bracket that closes, past whitespace, is not read. -/
theorem jsonParse_of_closes (h : closes t = true) : trim t ≠ [] ∧ jsonParse (trim t) = none := by
  unfold closes at h
  split at h
  · cases h
  · next u rest hdrop =>
    obtain ⟨more, htrim⟩ := trim_cons hdrop
    obtain ⟨token, htoken, hcloses⟩ : ∃ token, structural u = some token ∧ token.closes = true := by
      rcases Bool.or_eq_true _ _ ▸ h with heq | heq
      · exact ⟨.closeObject, by rw [of_decide_eq_true heq]; rfl, rfl⟩
      · exact ⟨.closeArray, by rw [of_decide_eq_true heq]; rfl, rfl⟩
    rw [htrim, jsonParse, lex_structural htoken]
    refine ⟨List.cons_ne_nil _ _, ?_⟩
    cases lex false (.plain []) more with
    | none => rfl
    | some tail =>
      match token, hcloses with
      | .closeArray, _ => rfl
      | .closeObject, _ => rfl

/-- Nor is one that begins with a comma. -/
theorem not_mended_of_comma {rest : Utf16} (htrim : trim (uncomment input) = comma :: rest) :
    ¬ JsoncMended input result := by
  rintro ⟨ts, hts, hreads⟩
  have hcomma : lex false (.plain []) (comma :: rest) = (lex false (.plain []) rest).map (.comma :: ·) :=
    lex_structural rfl
  rw [htrim, hcomma] at hts
  obtain ⟨tail, -, rfl⟩ := Option.map_eq_some_iff.1 hts
  rcases reads_iff.1 hreads with ⟨hnil, -⟩ | ⟨v, -, hv⟩
  · cases hnil
  · cases hv

/-- Where no comma is hidden, the text is read as what it is without its comments. -/
theorem parseJsonc_of_not_hidden (h : ¬ CommentHidesComma input) :
    parseJsonc input = some result ↔ JsoncMended input result := by
  have hstrip : stripJsonc input = dropCommasFrom .outer (uncomment input) := stripFrom_eq (Bool.eq_false_iff.2 h)
  rw [parseJsonc, hstrip, trim_dropCommasFrom]
  cases hm : trim (uncomment input) with
  | nil =>
    have hnil : trim [] = [] := rfl
    rw [dropCommasFrom_nil, if_pos hnil]
    constructor
    · rintro ⟨⟩
      exact ⟨[], by rw [hm]; rfl, .inl ⟨rfl, rfl⟩⟩
    · exact fun hmended => congrArg some (mended_unique ⟨[], by rw [hm]; rfl, .inl ⟨rfl, rfl⟩⟩ hmended)
  | cons ch rest =>
    by_cases hcomma : ch = comma ∧ closes rest = true
    · -- what follows the comma cannot begin a document either
      obtain ⟨rfl, hcloses⟩ := hcomma
      obtain ⟨hne, hnone⟩ := jsonParse_of_closes (closes_dropCommasFrom hcloses)
      have hdrop : dropCommasFrom .outer (comma :: rest) = dropCommasFrom .outer rest := by
        have hquote : comma ≠ quote := by decide
        rw [dropCommasFrom_outer_cons, if_neg hquote, if_pos ⟨rfl, hcloses⟩]
      rw [hdrop, if_neg hne, hnone]
      exact iff_of_false nofun (not_mended_of_comma hm)
    · have hhead : isJsSpace ch = false := trim_head (by rw [hm]; rfl)
      obtain ⟨more, hmore⟩ : ∃ more, dropCommasFrom .outer (ch :: rest) = ch :: more := by
        rw [dropCommasFrom_outer_cons, if_neg hcomma]
        split
        · exact ⟨_, rfl⟩
        · exact ⟨_, rfl⟩
      have htrim : trim (dropCommasFrom .outer (ch :: rest)) = dropCommasFrom .outer (ch :: rest) := by
        refine trim_eq_self (fun u hu => ?_) fun u hu => ?_
        · rw [hmore] at hu
          exact Option.some.inj hu ▸ hhead
        · obtain ⟨front, last, hlast⟩ := (ch :: rest).eq_nil_or_concat.resolve_left (List.cons_ne_nil _ _)
          rw [List.concat_eq_append] at hlast
          obtain ⟨init, hinit⟩ := @dropCommasFrom_concat last .outer front
          rw [hlast, hinit, List.getLast?_concat] at hu
          exact @trim_last u (uncomment input) (by rw [hm, hlast, List.getLast?_concat, hu])
      have hlex := @lex_dropCommasFrom (ch :: rest) (.plain []) rfl
      have hne : dropCommasFrom .outer (ch :: rest) ≠ [] := by
        rw [hmore]
        exact List.cons_ne_nil _ _
      rw [Mode.scan] at hlex
      rw [htrim, if_neg hne, jsonParse, hlex, JsoncMended, hm]
      cases hts : lex false (.plain []) (ch :: rest) with
      | none => simp
      | some ts =>
        have htokens : dropLone ts ≠ [] := dropLone_ne_nil (lex_ne_nil hhead hts)
        have hread : (read true (dropLone ts)).map some = some result ↔ Reads (dropLone ts) result := by
          rw [reads_iff, Option.map_eq_some_iff, or_iff_right fun h => htokens h.1]
          exact exists_congr fun v => and_comm.trans (and_congr_left' eq_comm)
        rw [Option.map_some, Option.bind_some, read_erase, hread]
        constructor
        · exact fun h => ⟨ts, rfl, h⟩
        · rintro ⟨ts', heq, h⟩
          exact Option.some.inj heq ▸ h

theorem parseJsonc_iff : parseJsonc input = some result ↔ ¬ CommentHidesComma input ∧ JsoncMended input result := by
  by_cases h : CommentHidesComma input
  · rw [parseJsonc_of_hidden h]
    simp [h]
  · rw [parseJsonc_of_not_hidden h]
    simp [h]

/-- The text is read as its document, if it is one, exactly when no comment hides a trailing comma of a document, and a
text that is no document has such a comma or is none without its comments either. -/
theorem parseJsonc_jsonc (input : Utf16) : ParsesJsonc input ↔
    ((∃ result, Jsonc input result) → ¬ CommentHidesComma input) ∧
    ((¬ ∃ result, Jsonc input result) → CommentHidesComma input ∨ ¬ ∃ result, JsoncMended input result) := by
  constructor
  · intro h
    refine ⟨fun ⟨result, hdoc⟩ => (parseJsonc_iff.1 ((h.accepts result).2 hdoc)).1, fun hnone => ?_⟩
    by_contra hbad
    rw [not_or, not_not] at hbad
    obtain ⟨hvisible, result, hmended⟩ := hbad
    exact hnone ⟨result, (h.accepts result).1 (parseJsonc_iff.2 ⟨hvisible, hmended⟩)⟩
  · rintro ⟨hdocument, hnone⟩
    refine ⟨fun result => ?_, @quotedFrom_stripFrom input .outer⟩
    rw [parseJsonc_iff]
    constructor
    · rintro ⟨hvisible, hmended⟩
      by_cases hdoc : ∃ result, Jsonc input result
      · obtain ⟨result', hresult'⟩ := hdoc
        exact mended_unique (jsonc_mended hresult') hmended ▸ hresult'
      · exact absurd ⟨result, hmended⟩ ((hnone hdoc).resolve_left hvisible)
    · exact fun hdoc => ⟨hdocument ⟨result, hdoc⟩, jsonc_mended hdoc⟩

end

/-- A list with a comma behind its element, and a comment behind the comma. -/
def commentedList : Utf16 := Utf16.ofAscii "[1, /*c*/ ]".toList

/-- It is a document, and is not read. -/
theorem commented_comma_not_read : ¬ ParsesJsonc commentedList := by
  intro h
  have hlist : IsValue true ([.openArray, .scalar [0x31], .comma, .closeArray] : List Token)
      (.array [.scalar [0x31]]) := .array (.scalar [0x31]) (.trailing rfl)
  have hdoc : Jsonc commentedList (some (.array [.scalar [0x31]])) := ⟨_, rfl, .inr ⟨_, rfl, hlist⟩⟩
  have hread := (h.accepts _).2 hdoc
  have hnone : parseJsonc commentedList = none := rfl
  rw [hnone] at hread
  cases hread

/-- A comment taken out of a number. -/
example : parseJsonc (Utf16.ofAscii "1/**/2".toList) = some (some (.scalar (Utf16.ofAscii "12".toList))) := rfl

end Zedspaces.Web.JsoncText
