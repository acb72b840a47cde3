/-
Branch names (`github-repo.ts`, `githubBranch`), against the supervisor's rule for a git ref. The control plane checks
the parts between the slashes, the supervisor looks for substrings; they agree on everything but two things: the single
character `@`, and white space beyond ASCII. What the control plane accepts passes the supervisor's rule exactly where
neither occurs (`githubBranch_checkGitRef`), and the revision of a workspace on a branch is that branch.
-/
import Zedspaces.Web.ManifestFields

namespace Zedspaces.Web

open Lib Supervisor

/-! ## The schema -/

/-- How many UTF-16 units a character takes. -/
def utf16Size (c : Char) : Nat := if c.toNat < 0x10000 then 1 else 2

/-- `char.charCodeAt(0)`: the character's first UTF-16 unit. -/
def charCode (c : Char) : Nat := if c.toNat < 0x10000 then c.toNat else 0xD800 + (c.toNat - 0x10000) / 0x400

def utf16Length (t : Text) : Nat := (t.map utf16Size).sum

/-- The part of a branch between two slashes. -/
def branchPart (part : Text) : Bool :=
  !part.isEmpty && !(['.'].isPrefixOf part) && !".lock".toList.isSuffixOf part

def githubBranch (branch : Text) : Bool :=
  decide (1 ≤ utf16Length branch) && decide (utf16Length branch ≤ 255) &&
    decide (branch ≠ "HEAD".toList) && !(['-'].isPrefixOf branch) && !(['.'].isSuffixOf branch) &&
    decide (¬ ['.', '.'] <:+: branch) && decide (¬ ['@', '\x7b'] <:+: branch) &&
    !(branch.any fun c => decide (charCode c ≤ 32) || decide (charCode c = 127) || decide (c ∈ "~^:?*[\\".toList)) &&
    (Path.pieces branch).all branchPart

/-! ## Against the supervisor's rule -/

/-- What an accepted branch is. -/
structure AcceptedBranch (branch : Text) : Prop where
  ne_nil : branch ≠ []
  dash : ¬ ['-'] <+: branch
  dotEnd : ¬ ['.'] <:+ branch
  dots : ¬ ['.', '.'] <:+: branch
  atBrace : ¬ ['@', '\x7b'] <:+: branch
  chars : ∀ c ∈ branch, 32 < c.toNat ∧ c.toNat ≠ 127 ∧ c ∉ "~^:?*[\\".toList
  parts : ∀ part ∈ Path.pieces branch, part ≠ [] ∧ ¬ ".lock".toList <:+ part

theorem lt_of_charCode {c : Char} (h : ¬ charCode c ≤ 32) : 32 < c.toNat := by
  unfold charCode at h
  split at h
  · omega
  · omega

theorem ne_of_charCode {c : Char} (h : charCode c ≠ 127) : c.toNat ≠ 127 := by
  unfold charCode at h
  split at h
  · exact h
  · omega

theorem AcceptedBranch.of {branch : Text} (h : githubBranch branch = true) : AcceptedBranch branch := by
  unfold githubBranch at h
  simp only [Bool.and_eq_true, Bool.not_eq_true', decide_eq_true_eq] at h
  obtain ⟨⟨⟨⟨⟨⟨⟨⟨hmin, -⟩, -⟩, hdash⟩, hdot⟩, hdots⟩, hat⟩, hchars⟩, hparts⟩ := h
  refine ⟨?_, ?_, ?_, hdots, hat, fun c hc => ?_, fun part hpart => ?_⟩
  · rintro rfl
    exact absurd hmin (by decide)
  · intro hpre
    rw [List.isPrefixOf_iff_prefix.2 hpre] at hdash
    cases hdash
  · intro hsuf
    rw [List.isSuffixOf_iff_suffix.2 hsuf] at hdot
    cases hdot
  · have hc := List.any_eq_false.1 hchars c hc
    simp only [Bool.or_eq_true, decide_eq_true_eq, not_or] at hc
    exact ⟨lt_of_charCode hc.1.1, ne_of_charCode hc.1.2, hc.2⟩
  · have hpart := List.all_eq_true.1 hparts part hpart
    unfold branchPart at hpart
    simp only [Bool.and_eq_true, Bool.not_eq_true'] at hpart
    obtain ⟨⟨hempty, -⟩, hlock⟩ := hpart
    refine ⟨fun hnil => ?_, fun hsuf => ?_⟩
    · rw [hnil] at hempty
      cases hempty
    · rw [List.isSuffixOf_iff_suffix.2 hsuf] at hlock
      cases hlock

/-- No part is empty, so slashes stand alone and inside. -/
theorem AcceptedBranch.slashes {branch : Text} (h : AcceptedBranch branch) :
    ¬ ['/', '/'] <:+: branch ∧ ¬ ['/'] <+: branch ∧ ¬ ['/'] <:+ branch := by
  refine ⟨?_, ?_, ?_⟩
  · rintro ⟨a, b, rfl⟩
    refine (h.parts [] ?_).1 rfl
    have hslashes : a ++ ['/', '/'] ++ b = a ++ '/' :: ([] ++ '/' :: b) := by simp
    rw [hslashes, Path.pieces_slash, Path.pieces_slash]
    simp [Path.pieces]
  · rintro ⟨b, rfl⟩
    refine (h.parts [] ?_).1 rfl
    have hslash : ['/'] ++ b = [] ++ '/' :: b := rfl
    rw [hslash, Path.pieces_slash]
    simp [Path.pieces]
  · rintro ⟨a, rfl⟩
    refine (h.parts [] ?_).1 rfl
    rw [Path.pieces_slash]
    simp [Path.pieces]

theorem AcceptedBranch.lock {branch : Text} (h : AcceptedBranch branch) : ¬ ".lock".toList <:+ branch := by
  rintro ⟨a, rfl⟩
  obtain ⟨part, hpart, hsuffix⟩ := Path.exists_piece_of_suffix (b := ".lock".toList) (by decide) a
  exact (h.parts part hpart).2 hsuffix

/-- An accepted branch is printable exactly where it has no white space. -/
theorem AcceptedBranch.printable {branch : Text} (h : AcceptedBranch branch) :
    isPrintable branch = true ↔ ∀ c ∈ branch, Text.isWhitespace c = false := by
  rw [isPrintable, List.all_eq_true]
  refine forall₂_congr fun c hc => ?_
  obtain ⟨hlow, hdel, -⟩ := h.chars c hc
  have hcontrol : isAsciiControl c = false := by
    rw [isAsciiControl, Bool.or_eq_false_iff, decide_eq_false_iff_not, decide_eq_false_iff_not]
    exact ⟨by omega, hdel⟩
  rw [hcontrol, Bool.false_or, Bool.not_eq_true']

/-- The supervisor's rule asks of an accepted branch only that it is not `@` and has no white space. -/
theorem AcceptedBranch.checkGitRef_iff {branch : Text} (h : AcceptedBranch branch) (what : String) :
    checkGitRef branch what = .ok () ↔ branch ≠ ['@'] ∧ ∀ c ∈ branch, Text.isWhitespace c = false := by
  have hspecial : (branch.any fun c => c ∈ ['~', '^', ':', '?', '*', '[', '\\']) = false := by
    refine List.any_eq_false.2 fun c hc hmem => ?_
    exact (h.chars c hc).2.2 (of_decide_eq_true hmem)
  obtain ⟨hslashes, hslashStart, hslashEnd⟩ := h.slashes
  rw [checkGitRef_ok, hspecial, h.printable]
  constructor
  · rintro ⟨-, -, hprintable, hforms⟩
    refine ⟨fun hat => hforms ?_, not_not.1 (not_or.1 hprintable).1⟩
    simp only [hat, or_true]
  · rintro ⟨hat, hwhite⟩
    refine ⟨h.ne_nil, h.dash, ?_, ?_⟩
    · exact not_or.2 ⟨not_not.2 hwhite, Bool.false_ne_true⟩
    · rintro (hbad | hbad | hbad | hbad | hbad | hbad | hbad | hbad)
      · exact h.dots hbad
      · exact h.atBrace hbad
      · exact hslashes hbad
      · exact hslashStart hbad
      · exact hslashEnd hbad
      · exact h.dotEnd hbad
      · exact h.lock hbad
      · exact hat hbad

theorem manifestRevision_of_branch {ws : ManifestWorkspace} {branch : Text} (repo : Repo) (href : ws.gitRef = none)
    (hbranch : ws.branch = some branch) : manifestRevision ws repo = branch := by
  unfold manifestRevision
  rw [href, hbranch]
  rfl

/-- An accepted branch passes the supervisor's rule exactly where it is not `@` and has no white space, and so does the
revision in the manifest of every workspace on it. -/
theorem githubBranch_checkGitRef (branch : Text) (h : githubBranch branch = true) (what : String) :
    (checkGitRef branch what = .ok () ↔ branch ≠ ['@'] ∧ ∀ c ∈ branch, Text.isWhitespace c = false) ∧
    ∀ ws : ManifestWorkspace, ws.gitRef = none → ws.branch = some branch → ∀ repo : Repo,
      (checkGitRef (manifestRevision ws repo) what = .ok () ↔
        branch ≠ ['@'] ∧ ∀ c ∈ branch, Text.isWhitespace c = false) := by
  have hiff := (AcceptedBranch.of h).checkGitRef_iff what
  refine ⟨hiff, fun ws href hbranch repo => ?_⟩
  rw [manifestRevision_of_branch repo href hbranch]
  exact hiff

theorem githubBranch_checkGitRef_main : checkGitRef ['m', 'a', 'i', 'n'] "repo.revision" = .ok () :=
  (githubBranch_checkGitRef ['m', 'a', 'i', 'n'] (by decide) "repo.revision").1.2
    ⟨by decide, Text.forall_mem_of_all (by decide)⟩

/-- A no-break space, and the single character that git refuses. -/
theorem not_githubBranch_always_passes :
    ¬ (∀ branch, githubBranch branch = true → checkGitRef branch "repo.revision" = .ok ()) ∧
    githubBranch ['@'] = true ∧ githubBranch ['v', '\u00A0', '2'] = true := by
  refine ⟨fun h => ?_, by decide, by decide⟩
  have hat := h ['@'] (by decide)
  exact absurd hat (by decide)

end Zedspaces.Web
