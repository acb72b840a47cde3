/-
The settings documents of the accounts (`readDoc`, `writeDoc`) and the route that stores one. A write that quotes a
version is refused unless the document still has it, with the document as it is; an accepted one moves the version up by
one. Size and syntax are checked before the row is read.
-/
import Mathlib.Logic.Function.Basic
import Zedspaces.Lib.Json
import Zedspaces.Web.Jsonc

namespace Zedspaces.Web

open Lib

inductive SettingsKind where
  | settings
  | keymap
  | dotfiles
  deriving DecidableEq, Repr

def SettingsKind.text : SettingsKind → String
  | .settings => "settings"
  | .keymap => "keymap"
  | .dotfiles => "dotfiles"

structure SettingsDoc where
  content : Utf16
  version : Int
  deriving DecidableEq, Repr

/-- `ApiError`, where its details are a document. -/
structure ApiError where
  status : Nat
  code : String
  message : String
  details : Option SettingsDoc
  deriving DecidableEq, Repr

def maxDocBytes : Nat := 512 * 1024

def SettingsKind.defaultFor : SettingsKind → Utf16
  | .settings => Utf16.ofAscii "\x7b\n\x7d\n".toList
  | .keymap => Utf16.ofAscii "[\n]\n".toList
  | .dotfiles => Utf16.ofAscii "\x7b\"repoUrl\":null,\"installCommand\":null\x7d".toList

/-- The rows of `settings_docs`, by user and kind. -/
abbrev SettingsTable := String × SettingsKind → Option SettingsDoc

def readDoc (table : SettingsTable) (userId : String) (kind : SettingsKind) : SettingsDoc :=
  match table (userId, kind) with
  | some row => row
  | none => ⟨kind.defaultFor, 0⟩

/-- `Buffer.byteLength`, which counts a lone surrogate as the three bytes it is replaced by. -/
def byteLength (content : Utf16) : Nat := (Text.utf8 content.toTextLossy).length

def writeDoc (table : SettingsTable) (userId : String) (kind : SettingsKind) (content : Utf16)
    (expectedVersion : Option Int) : Except ApiError (SettingsDoc × SettingsTable) :=
  if byteLength content > maxDocBytes then
    .error ⟨413, "payload_too_large", s!"A {kind.text} document may not exceed {maxDocBytes} bytes", none⟩
  else if kind ≠ .dotfiles ∧ JsoncText.isJsonc content = false then
    .error ⟨400, "invalid_body", s!"The {kind.text} document is not valid JSON with comments", none⟩
  else
    let current := table (userId, kind)
    let version := (current.map SettingsDoc.version).getD 0
    if expectedVersion.isSome ∧ expectedVersion ≠ some version then
      .error ⟨409, "version_conflict", "The document changed since it was read",
        some ⟨(current.map SettingsDoc.content).getD kind.defaultFor, version⟩⟩
    else
      let doc : SettingsDoc := ⟨content, version + 1⟩
      .ok (doc, Function.update table (userId, kind) (some doc))

/-- `putSettingsDocInput`'s bound on the content, in code units. -/
def maxContentUnits : Nat := 512 * 1024

/-- The route's bound on the body. -/
def maxBodyBytes : Nat := maxDocBytes + 4096

/-- `PUT` of a document: the body's size as it arrives, the schema, the write. -/
def putDocument (table : SettingsTable) (userId : String) (kind : SettingsKind) (bodyBytes : Nat) (content : Utf16)
    (version : Option Int) : Except ApiError (SettingsDoc × SettingsTable) :=
  if bodyBytes > maxBodyBytes then
    .error ⟨413, "payload_too_large", s!"Body exceeds {maxBodyBytes} bytes", none⟩
  else if content.length > maxContentUnits then
    .error ⟨400, "invalid_body", "Body failed validation", none⟩
  else writeDoc table userId kind content version

/-! ## The editor's request -/

/-- The code units of a character. -/
def utf16Char (c : Char) : Utf16 :=
  if c.toNat < 0x10000 then [UInt16.ofNat c.toNat]
  else [UInt16.ofNat (0xD800 + (c.toNat - 0x10000) / 0x400), UInt16.ofNat (0xDC00 + (c.toNat - 0x10000) % 0x400)]

def utf16 (s : String) : Utf16 := s.toList.flatMap utf16Char

/-- The body of `putSettingsDocument`: a `null` version is left out. -/
def putBody (content : String) (version : Option Int) : Text :=
  Json.object (("content".toList, Json.string content.toList) ::
    version.toList.map fun v => ("version".toList, (toString v).toList))

/-! ## What a write does -/

/-- The content passes the checks that come before the row is read. -/
def Writable (kind : SettingsKind) (content : Utf16) : Prop :=
  byteLength content ≤ maxDocBytes ∧ (kind = .dotfiles ∨ JsoncText.isJsonc content = true)

/-- The request passes the checks of the route, too. -/
def Acceptable (kind : SettingsKind) (bodyBytes : Nat) (content : Utf16) : Prop :=
  bodyBytes ≤ maxBodyBytes ∧ content.length ≤ maxContentUnits ∧ Writable kind content

section
variable {table table' : SettingsTable} {userId : String} {kind : SettingsKind} {content : Utf16}
  {version : Option Int} {bodyBytes : Nat} {doc : SettingsDoc}

theorem readDoc_version : (readDoc table userId kind).version =
    ((table (userId, kind)).map SettingsDoc.version).getD 0 := by
  unfold readDoc
  split
  · next row hrow => simp [hrow]
  · next hnone => simp [hnone]

theorem readDoc_content : (readDoc table userId kind).content =
    ((table (userId, kind)).map SettingsDoc.content).getD kind.defaultFor := by
  unfold readDoc
  split
  · next row hrow => simp [hrow]
  · next hnone => simp [hnone]

@[simp] theorem readDoc_update_self : readDoc (Function.update table (userId, kind) (some doc)) userId kind = doc := by
  simp [readDoc]

theorem readDoc_update_of_ne {userId' : String} {kind' : SettingsKind} (hne : (userId', kind') ≠ (userId, kind)) :
    readDoc (Function.update table (userId, kind) (some doc)) userId' kind' = readDoc table userId' kind' := by
  simp [readDoc, Function.update_of_ne hne]

/-- A write of acceptable content succeeds at the version it quotes, and at any where it quotes none. -/
theorem writeDoc_of_writable (hw : Writable kind content) : writeDoc table userId kind content version =
    if ∀ v ∈ version, v = (readDoc table userId kind).version then
      .ok (⟨content, (readDoc table userId kind).version + 1⟩,
        Function.update table (userId, kind) (some ⟨content, (readDoc table userId kind).version + 1⟩))
    else .error ⟨409, "version_conflict", "The document changed since it was read",
      some (readDoc table userId kind)⟩ := by
  obtain ⟨hsize, hsyntax⟩ := hw
  have hpass : ¬ (kind ≠ .dotfiles ∧ JsoncText.isJsonc content = false) := by
    rintro ⟨hkind, hfalse⟩
    rcases hsyntax with heq | htrue
    · exact hkind heq
    · simp [htrue] at hfalse
  unfold writeDoc
  rw [if_neg (Nat.not_lt.2 hsize), if_neg hpass]
  dsimp only
  rw [← readDoc_version, ← readDoc_content]
  cases version with
  | none => simp
  | some v =>
    by_cases heq : v = (readDoc table userId kind).version
    · simp [heq]
    · simp [heq]

theorem writeDoc_eq_ok (h : writeDoc table userId kind content version = .ok (doc, table')) :
    Writable kind content ∧ (∀ v ∈ version, v = (readDoc table userId kind).version) ∧
    doc = ⟨content, (readDoc table userId kind).version + 1⟩ ∧
    table' = Function.update table (userId, kind) (some doc) := by
  have hw : Writable kind content := by
    unfold writeDoc at h
    split at h
    · cases h
    · next hsize =>
      split at h
      · cases h
      · next hsyntax =>
        refine ⟨Nat.le_of_not_lt hsize, ?_⟩
        by_cases hkind : kind = .dotfiles
        · exact .inl hkind
        · exact .inr (by simpa [hkind] using hsyntax)
  rw [writeDoc_of_writable hw] at h
  split at h
  · next hversion =>
    cases h
    exact ⟨hw, hversion, rfl, rfl⟩
  · cases h

theorem putDocument_of_acceptable (h : Acceptable kind bodyBytes content) :
    putDocument table userId kind bodyBytes content version = writeDoc table userId kind content version := by
  obtain ⟨hbody, hunits, -⟩ := h
  rw [putDocument, if_neg (Nat.not_lt.2 hbody), if_neg (Nat.not_lt.2 hunits)]

theorem putDocument_eq_ok (h : putDocument table userId kind bodyBytes content version = .ok (doc, table')) :
    Acceptable kind bodyBytes content ∧ writeDoc table userId kind content version = .ok (doc, table') := by
  unfold putDocument at h
  split at h
  · cases h
  · next hbody =>
    split at h
    · cases h
    · next hunits =>
      exact ⟨⟨Nat.le_of_not_lt hbody, Nat.le_of_not_lt hunits, (writeDoc_eq_ok h).1⟩, h⟩

/-- Every default passes the check on what is stored. -/
theorem writable_defaultFor (kind : SettingsKind) : Writable kind kind.defaultFor := by
  cases kind with
  | settings => exact ⟨by decide, .inr (by decide)⟩
  | keymap => exact ⟨by decide, .inr (by decide)⟩
  | dotfiles => exact ⟨by decide, .inl rfl⟩

end

end Zedspaces.Web
