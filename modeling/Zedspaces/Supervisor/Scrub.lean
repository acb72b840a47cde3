/-
Scrubbing of log text (`logs.rs`). First each token shape, then each registered form of a secret value is replaced by
`[redacted]`, one after the other over a text the earlier replacements have changed. A form without brackets that
does not stand in `redacted` is gone after its own turn and cannot be put together by a later one, so the last pass
leaves no form and has nothing to do a second time (`secrets_redacted`); neither has the whole of `scrub`, unless
a mark has completed a token shape.
-/
import Mathlib.Data.List.Sort
import Mathlib.Data.List.Lex
import Zedspaces.Lib.Base64Url
import Zedspaces.Lib.Redaction
import Zedspaces.Lib.Shapes
import Zedspaces.Lib.Text

namespace Zedspaces.Supervisor

open Lib

/-- `[redacted]` -/
def redacted : Mark Char := ⟨'[', "redacted".toList, ']'⟩

/-! ## Token shapes -/

def single (cls : Char → Bool) : Piece Char := ⟨cls, 1, false⟩

def atLeast (cls : Char → Bool) (min : Nat) : Piece Char := ⟨cls, min, true⟩

def literal (s : String) : List (Piece Char) := s.toList.map fun c => single (· == c)

/-- `(?i)`: two letters outside ASCII fold to a letter of it. -/
def foldsTo (c d : Char) : Bool :=
  d.toLower == c || (c == 's' && d.toNat == 0x17F) || (c == 'k' && d.toNat == 0x212A)

def literalFolded (s : String) : List (Piece Char) := s.toList.map fun c => single (foldsTo c)

def alphanumeric (c : Char) : Bool := c.isAlphanum

def alphanumericOr (others : String) (c : Char) : Bool := c.isAlphanum || others.toList.contains c

def visibleExcept (others : String) (c : Char) : Bool := !Text.isWhitespace c && !others.toList.contains c

/-- `[A-Za-z0-9._~+/=-]` under `(?i)` -/
def bearerCharacter (c : Char) : Bool := alphanumericOr "._~+/=-" c || c.toNat == 0x17F || c.toNat == 0x212A

/-- `SCRUB_PATTERNS` -/
def scrubPatterns : List (List (Piece Char)) := [
  literal "gh" ++ [single "pousr".toList.contains] ++ literal "_" ++ [atLeast alphanumeric 20],
  literal "github_pat_" ++ [atLeast (alphanumericOr "_") 20],
  literal "zsb_" ++ [atLeast (alphanumericOr "_-") 20],
  literal "eyJ" ++ [atLeast (alphanumericOr "_-") 8] ++ literal "." ++ [atLeast (alphanumericOr "_-") 8] ++
    literal "." ++ [atLeast (alphanumericOr "_-") 8],
  literal "v1." ++ [atLeast (alphanumericOr "_-") 8] ++ literal "." ++ [atLeast (alphanumericOr "_-") 8],
  literalFolded "bearer" ++ [atLeast Text.isWhitespace 1, atLeast bearerCharacter 16],
  literal "x-access-token:" ++ [atLeast (visibleExcept "@") 1] ++ literal "@",
  literal "zs_port_token=" ++ [atLeast (visibleExcept "&") 1],
  literal "zs_port_session=" ++ [atLeast (visibleExcept ";") 1],
  literalFolded "x-vercel-protection-bypass:" ++ [atLeast Text.isWhitespace 0, atLeast (visibleExcept "") 1],
  [single "?&".toList.contains] ++ literal "token=" ++ [atLeast (visibleExcept "&") 1]]

/-! ## Secret values -/

def minSecretLen : Nat := 8

/-- `base64::STANDARD`: base64url with two other characters and padding. -/
def base64Standard (bytes : List UInt8) : Text :=
  let t := (Base64Url.encode bytes).map fun c => if c = '-' then '+' else if c = '_' then '/' else c
  t ++ List.replicate ((4 - t.length % 4) % 4) '='

/-- Percent encoding that keeps RFC 3986's unreserved characters. -/
def percentEncodeValue (value : Text) : Text := value.utf8.flatMap fun byte =>
  let c := Char.ofNat byte.toNat
  if alphanumericOr "-._~" c then [c] else ['%', Text.upperHexDigit (byte.toNat / 16), Text.upperHexDigit (byte.toNat % 16)]

/-- The forms under which a value is redacted. -/
def secretForms (value : Text) : List Text :=
  [value, base64Standard value.utf8, Base64Url.encode value.utf8, percentEncodeValue value].filter fun form =>
    decide (minSecretLen ≤ form.utf8.length)

def addForm (forms : List Text) (form : Text) : List Text := if form ∈ forms then forms else forms ++ [form]

/-- Adds the forms of the value that are not registered yet. -/
def addSecret (forms : List Text) (value : Text) : List Text :=
  if value.utf8.length < minSecretLen then forms else (secretForms value).foldl addForm forms

/-- The order of the registry: longest first, and texts of one length by their bytes. -/
def LongerFirst (a b : Text) : Prop :=
  b.utf8.length < a.utf8.length ∨
    (a.utf8.length = b.utf8.length ∧ a.utf8.map UInt8.toNat ≤ b.utf8.map UInt8.toNat)

instance : DecidableRel LongerFirst := fun _ _ => inferInstanceAs (Decidable (_ ∨ _))

instance : Std.Total LongerFirst where
  total a b := by
    rcases Nat.lt_trichotomy a.utf8.length b.utf8.length with h | h | h
    · exact .inr (.inl h)
    · rcases le_total (a.utf8.map UInt8.toNat) (b.utf8.map UInt8.toNat) with hle | hle
      · exact .inl (.inr ⟨h, hle⟩)
      · exact .inr (.inr ⟨h.symm, hle⟩)
    · exact .inl (.inl h)

instance : IsTrans Text LongerFirst where
  trans a b c := by
    rintro (hab | ⟨hab, hab'⟩) (hbc | ⟨hbc, hbc'⟩)
    · exact .inl (hbc.trans hab)
    · exact .inl (by omega)
    · exact .inl (by omega)
    · exact .inr ⟨hab.trans hbc, hab'.trans hbc'⟩

/-- `SECRET_VALUES`: the registered forms, none too short, longest first. -/
structure SecretValues where
  forms : List Text
  long : ∀ form ∈ forms, minSecretLen ≤ form.utf8.length
  longestFirst : forms.Pairwise fun a b => b.utf8.length ≤ a.utf8.length

namespace SecretValues

def empty : SecretValues := ⟨[], by rintro form ⟨⟩, .nil⟩

theorem forall_addForm {P : Text → Prop} {forms : List Text} {form : Text} (hform : P form) (h : ∀ f ∈ forms, P f) :
    ∀ f ∈ addForm forms form, P f := by
  unfold addForm
  split
  · exact h
  · exact List.forall_mem_append.2 ⟨h, List.forall_mem_singleton.2 hform⟩

theorem forall_addSecret {forms : List Text} (h : ∀ form ∈ forms, minSecretLen ≤ form.utf8.length) (value : Text) :
    ∀ form ∈ addSecret forms value, minSecretLen ≤ form.utf8.length := by
  unfold addSecret
  split
  · exact h
  · have hnew : ∀ form ∈ secretForms value, minSecretLen ≤ form.utf8.length :=
      fun form hform => of_decide_eq_true (List.mem_filter.1 hform).2
    generalize secretForms value = new at hnew
    induction new generalizing forms with
    | nil => exact h
    | cons form new ih =>
      obtain ⟨hform, hnew⟩ := List.forall_mem_cons.1 hnew
      exact ih (forall_addForm hform h) hnew

theorem forall_addSecrets {forms : List Text} (h : ∀ form ∈ forms, minSecretLen ≤ form.utf8.length) (values : List Text) :
    ∀ form ∈ values.foldl addSecret forms, minSecretLen ≤ form.utf8.length := by
  induction values generalizing forms with
  | nil => exact h
  | cons value values ih => exact ih (forall_addSecret h value)

/-- `register_secret_values` -/
def register (registry : SecretValues) (values : List Text) : SecretValues where
  forms := (values.foldl addSecret registry.forms).insertionSort LongerFirst
  long := by
    intro form hform
    have hmem : form ∈ values.foldl addSecret registry.forms := (List.perm_insertionSort ..).mem_iff.1 hform
    exact forall_addSecrets registry.long values form hmem
  longestFirst := by
    refine (List.pairwise_insertionSort LongerFirst _).imp ?_
    rintro a b (h | ⟨h, -⟩)
    · exact Nat.le_of_lt h
    · exact Nat.le_of_eq h.symm

/-- No form has a bracket or stands in `redacted`. -/
def Plain (registry : SecretValues) : Prop :=
  ∀ form ∈ registry.forms, '[' ∉ form ∧ ']' ∉ form ∧ ¬ form <:+: "redacted".toList

theorem ne_nil (registry : SecretValues) {form : Text} (h : form ∈ registry.forms) : form ≠ [] := by
  rintro rfl
  exact absurd (registry.long _ h) (by decide)

theorem Plain.foreign {registry : SecretValues} (h : registry.Plain) :
    ∀ form ∈ registry.forms, redacted.Foreign form := by
  intro form hform
  obtain ⟨hopening, hclosing, houtside⟩ := h form hform
  exact ⟨⟨hopening, hclosing⟩, houtside, registry.ne_nil hform⟩

end SecretValues

/-! ## Scrubbing -/

/-- The pass over the token shapes. -/
def scrubShapes (t : Text) : Text := scrubPatterns.foldl (fun t shape => redact (shapeFind shape) redacted 0 t) t

/-- The pass over the registered forms. -/
def scrubSecrets (registry : SecretValues) (t : Text) : Text := redactWords redacted registry.forms t

def scrub (registry : SecretValues) (message : Text) : Text := scrubSecrets registry (scrubShapes message)

/-- No shape is found, nothing is changed. -/
theorem scrubShapes_eq_self {t : Text} (h : ∀ shape ∈ scrubPatterns, ∀ u, u <:+ t → shapeFind shape u = 0) :
    scrubShapes t = t := by
  unfold scrubShapes
  generalize scrubPatterns = shapes at h ⊢
  induction shapes with
  | nil => rfl
  | cons shape shapes ih =>
    obtain ⟨hshape, hshapes⟩ := List.forall_mem_cons.1 h
    rw [List.foldl_cons, redact_eq_self hshape]
    exact ih hshapes

end Zedspaces.Supervisor
