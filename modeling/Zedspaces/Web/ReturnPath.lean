/-
Where the login sends the user back to. The value is read as a reference to a path of the site, and written back from
the parser's parts; removing dot segments may leave a path that begins with two slashes, which a browser reads as the
name of another host. That happens exactly to a value that is taken as a path of the site and puts an empty segment on
the root (`returnPath_stays`).
-/
import Zedspaces.Lib.Utf16
import Zedspaces.Lib.UrlReference

namespace Zedspaces.Web

open Lib

/-- The first unit of each code point of a string. -/
def codePointUnits : Utf16 → List UInt16
  | [] => []
  | [u] => [u]
  | u :: v :: rest => if Utf16.isHigh u && Utf16.isLow v then u :: codePointUnits rest else u :: codePointUnits (v :: rest)

def workspacesPath : Text := "/workspaces".toList

/-- Starts with one slash, and has neither a backslash nor a control character or a space. -/
def looksLocal (value : Utf16) : Bool :=
  [0x2F].isPrefixOf value && !([0x2F, 0x2F].isPrefixOf value) && 0x5C ∉ value &&
    !((codePointUnits value).any fun u => u.toNat ≤ 32 || u.toNat = 127)

/-- The URL's origin is the base's where the reference is one to a path; what looks local is no other. -/
def safeReturnPath (value : Option Utf16) : Text :=
  match value with
  | none => workspacesPath
  | some value =>
    if looksLocal value then
      match UrlReference.parse value.toTextLossy with
      | .path url =>
        if url.pathname = "/login".toList ∨ "/api/".toList <+: url.pathname then workspacesPath
        else url.pathname ++ url.search ++ url.hash
      | _ => workspacesPath
    else workspacesPath

/-- One slash, which neither a slash nor a backslash follows; and, as a reference, a path of the site. -/
structure StaysOnSite (path : Text) : Prop where
  slash : ∃ rest, path = '/' :: rest ∧ rest.head? ≠ some '/' ∧ rest.head? ≠ some '\\'
  resolves : ∃ url, UrlReference.parse path = .path url

/-! ## A value that looks local -/

section
variable {u v : UInt16} {value rest : Utf16} {c : Char}

theorem codePointUnits_pair (h : (Utf16.isHigh u && Utf16.isLow v) = true) :
    codePointUnits (u :: v :: rest) = u :: codePointUnits rest := if_pos h

theorem codePointUnits_unit (h : ¬ (Utf16.isHigh u && Utf16.isLow v) = true) :
    codePointUnits (u :: v :: rest) = u :: codePointUnits (v :: rest) := if_neg h

theorem toNat_unit (h : ¬ (Utf16.isHigh u || Utf16.isLow u) = true) : (Char.ofNat u.toNat).toNat = u.toNat := by
  have hlt : u.toNat < 0x10000 := u.toNat_lt
  have hvalid : u.toNat.isValidChar := by
    simp only [Utf16.isHigh, Utf16.isLow, Bool.or_eq_true, Bool.and_eq_true, decide_eq_true_eq] at h
    simp only [Nat.isValidChar]
    omega
  rw [Char.ofNat, dif_pos hvalid]
  rfl

theorem toNat_pair (h : (Utf16.isHigh u && Utf16.isLow v) = true) : 0x10000 ≤ (Utf16.pair u v).toNat := by
  simp only [Utf16.isHigh, Utf16.isLow, Bool.and_eq_true, decide_eq_true_eq] at h
  have hvalid : (0x10000 + (u.toNat - 0xD800) * 0x400 + (v.toNat - 0xDC00)).isValidChar := by
    simp only [Nat.isValidChar]
    omega
  rw [Utf16.pair, Char.ofNat, dif_pos hvalid]
  show 0x10000 ≤ 0x10000 + (u.toNat - 0xD800) * 0x400 + (v.toNat - 0xDC00)
  omega

/-- An ASCII character of the text is the first unit of a code point. -/
theorem unit_of_mem (hc : c ∈ value.toTextLossy) (hascii : c.toNat < 0x80) :
    UInt16.ofNat c.toNat ∈ codePointUnits value := by
  have hplain : ∀ u : UInt16, ¬ (Utf16.isHigh u || Utf16.isLow u) = true → c = Char.ofNat u.toNat →
      UInt16.ofNat c.toNat = u := by
    rintro u hu rfl
    rw [toNat_unit hu, UInt16.ofNat_toNat]
  have hlossy : c ≠ '\uFFFD' := by
    rintro rfl
    have hcode : '\uFFFD'.toNat = 0xFFFD := by decide
    omega
  induction value using codePointUnits.induct with
  | case1 => cases hc
  | case2 u =>
    rw [Utf16.toTextLossy] at hc
    split at hc
    · exact absurd (List.mem_singleton.1 hc) hlossy
    · next hu => rw [hplain u hu (List.mem_singleton.1 hc)]; exact List.mem_singleton_self u
  | case3 u v rest hpair ih =>
    rw [Utf16.toTextLossy, if_pos hpair] at hc
    rw [codePointUnits_pair hpair]
    rcases List.mem_cons.1 hc with heq | hc
    · have hge := toNat_pair hpair
      rw [← heq] at hge
      omega
    · exact List.mem_cons_of_mem _ (ih hc)
  | case4 u v rest hpair ih =>
    rw [Utf16.toTextLossy, if_neg hpair] at hc
    rw [codePointUnits_unit hpair]
    split at hc
    · rcases List.mem_cons.1 hc with rfl | hc
      · exact absurd rfl hlossy
      · exact List.mem_cons_of_mem _ (ih hc)
    · next hu =>
      rcases List.mem_cons.1 hc with heq | hc
      · rw [hplain u hu heq]
        exact List.mem_cons_self ..
      · exact List.mem_cons_of_mem _ (ih hc)

theorem mem_of_codePointUnits (h : u ∈ codePointUnits value) : u ∈ value := by
  induction value using codePointUnits.induct with
  | case1 => exact h
  | case2 v => exact h
  | case3 v w rest hpair ih =>
    rw [codePointUnits_pair hpair] at h
    rcases List.mem_cons.1 h with rfl | h
    · exact List.mem_cons_self ..
    · exact List.mem_cons_of_mem _ (List.mem_cons_of_mem _ (ih h))
  | case4 v w rest hpair ih =>
    rw [codePointUnits_unit hpair] at h
    rcases List.mem_cons.1 h with rfl | h
    · exact List.mem_cons_self ..
    · exact List.mem_cons_of_mem _ (ih h)

theorem toTextLossy_slash (value : Utf16) : Utf16.toTextLossy (0x2F :: value) = '/' :: value.toTextLossy := by
  cases value with
  | nil => rfl
  | cons v value => rfl

theorem head_toTextLossy (h : value.toTextLossy.head? = some '/') : value.head? = some 0x2F := by
  have hmem : UInt16.ofNat '/'.toNat ∈ codePointUnits value := unit_of_mem (List.mem_of_head? h) (by decide)
  cases value with
  | nil => cases h
  | cons u value =>
    cases value with
    | nil =>
      rw [← List.mem_singleton.1 hmem]
      rfl
    | cons v value =>
      rw [Utf16.toTextLossy] at h
      split at h
      · next hpair =>
        have hge := toNat_pair hpair
        rw [Option.some.inj h] at hge
        exact absurd hge (by decide)
      · split at h
        · exact absurd (Option.some.inj h) (by decide)
        · next hu =>
          have hcode := toNat_unit hu
          rw [Option.some.inj h] at hcode
          rw [List.head?_cons, ← UInt16.ofNat_toNat (x := u), ← hcode]
          rfl

/-- The text behind the slash of a value that looks local. -/
structure LocalText (t : Text) : Prop where
  visible : ∀ c ∈ '/' :: t, 0x20 < c.toNat
  head : ∀ c, t.head? = some c → UrlReference.isSlash c = false
  backslash : '\\' ∉ t

theorem looksLocal_text (h : looksLocal value = true) : ∃ t, value.toTextLossy = '/' :: t ∧ LocalText t := by
  simp only [looksLocal, Bool.and_eq_true, Bool.not_eq_true', List.any_eq_false, decide_eq_true_eq] at h
  obtain ⟨⟨⟨hstart, hdouble⟩, hback⟩, hunits⟩ := h
  obtain ⟨rest, rfl⟩ : ∃ rest, value = 0x2F :: rest := by
    obtain ⟨rest, hrest⟩ := List.isPrefixOf_iff_prefix.1 hstart
    exact ⟨rest, hrest.symm⟩
  have hunit : ∀ c ∈ '/' :: Utf16.toTextLossy rest, c.toNat < 0x80 → UInt16.ofNat c.toNat ∈ codePointUnits (0x2F :: rest) :=
    fun c hc hascii => unit_of_mem (by rw [toTextLossy_slash]; exact hc) hascii
  have hbackslash : '\\' ∉ Utf16.toTextLossy rest := fun hc =>
    hback (mem_of_codePointUnits (hunit '\\' (List.mem_cons_of_mem _ hc) (by decide)))
  refine ⟨Utf16.toTextLossy rest, toTextLossy_slash rest, ?_, ?_, hbackslash⟩
  · intro c hc
    by_contra hle
    have hmem := hunit c hc (by omega)
    refine hunits _ hmem ?_
    have hcode : (UInt16.ofNat c.toNat).toNat = c.toNat := by
      rw [UInt16.toNat_ofNat']
      omega
    rw [hcode]
    simp only [Bool.or_eq_true, decide_eq_true_eq]
    omega
  · intro c hc
    have hslash : c ≠ '/' := by
      rintro rfl
      obtain ⟨more, rfl⟩ := List.head?_eq_some_iff.1 (head_toTextLossy hc)
      rw [List.isPrefixOf_cons_cons] at hdouble
      simp at hdouble
    have hne : c ≠ '\\' := by
      rintro rfl
      exact hbackslash (List.mem_of_head? hc)
    simp [UrlReference.isSlash, hslash, hne]

end

/-! ## The path that is returned -/

theorem workspacesPath_stays : StaysOnSite workspacesPath :=
  ⟨⟨"workspaces".toList, rfl, by decide, by decide⟩, _, rfl⟩

/-- What is written of a path of the site stays on it, unless the path begins with an empty segment and goes on. -/
theorem written_stays {url : UrlTail} (h : UrlReference.Written url) :
    StaysOnSite url.text ↔ ¬ UrlReference.StartsDoubled url.path := by
  obtain ⟨rest, htext, hhead⟩ := h.head
  have hvisible := h.visible
  rw [htext] at hvisible ⊢
  rw [← hhead]
  constructor
  · rintro ⟨-, tail, hpath⟩ ⟨c, hc, hslash⟩
    exact UrlReference.parse_not_path hvisible hc hslash tail hpath
  · intro hnot
    have hplain : ∀ c, rest.head? = some c → UrlReference.isSlash c = false := fun c hc =>
      eq_false_of_ne_true fun hslash => hnot ⟨c, hc, hslash⟩
    refine ⟨⟨rest, rfl, fun hc => ?_, fun hc => ?_⟩, _, UrlReference.parse_path hvisible hplain⟩
    · exact absurd (hplain _ hc) (by decide)
    · exact absurd (hplain _ hc) (by decide)

/-- The value is taken as a path of the site, and an empty segment of it that is not the last stands where the segments
before it lead back to the root, with none behind it that climbs over it. -/
def PutsEmptyOnRoot (value : Utf16) : Prop :=
  looksLocal value = true ∧ UrlReference.Doubled 0 (Path.pieces (UrlReference.pathPart value.toTextLossy.tail))

/-- The returned path stays on the site, exactly if the value does not put an empty segment on the root. -/
theorem returnPath_stays (value : Option Utf16) :
    StaysOnSite (safeReturnPath value) ↔ ∀ s, value = some s → ¬ PutsEmptyOnRoot s := by
  cases value with
  | none => exact ⟨fun _ => (by rintro _ ⟨⟩), fun _ => workspacesPath_stays⟩
  | some s =>
    have hforall : (∀ s', some s = some s' → ¬ PutsEmptyOnRoot s') ↔ ¬ PutsEmptyOnRoot s :=
      ⟨fun h => h s rfl, fun h s' hs => Option.some.inj hs ▸ h⟩
    rw [hforall, safeReturnPath]
    by_cases hlocal : looksLocal s = true
    · obtain ⟨t, htext, ht⟩ := looksLocal_text hlocal
      have hwritten : UrlReference.Written (UrlReference.pathState [] [] t) :=
        UrlReference.written_pathState (by rintro _ ⟨⟩) (by rintro _ ⟨⟩)
      have hdoubled := UrlReference.path_doubled ht.backslash
      rw [if_pos hlocal, htext, UrlReference.parse_path ht.visible ht.head]
      have hputs : PutsEmptyOnRoot s ↔ UrlReference.StartsDoubled (UrlReference.pathState [] [] t).path := by
        rw [PutsEmptyOnRoot, htext, hdoubled]
        exact and_iff_right hlocal
      rw [hputs]
      dsimp only
      split
      · next hown =>
        -- neither of the site's own paths begins with two slashes
        refine iff_of_true workspacesPath_stays ?_
        rintro ⟨next, rest, hpath⟩
        rw [UrlTail.pathname, hpath] at hown
        rcases hown with hlogin | ⟨more, hapi⟩
        · cases hlogin
        · cases hapi
      · exact written_stays hwritten
    · rw [if_neg hlocal]
      exact iff_of_true workspacesPath_stays fun h => hlocal h.1

/-- A value that looks local, and what is returned for it: a reference to another host. -/
theorem returnPath_leaves : looksLocal (Utf16.ofAscii "/.//evil.com".toList) = true ∧
    safeReturnPath (some (Utf16.ofAscii "/.//evil.com".toList)) = "//evil.com".toList ∧
    UrlReference.parse "//evil.com".toList = .authority "evil.com".toList ∧
    ¬ StaysOnSite (safeReturnPath (some (Utf16.ofAscii "/.//evil.com".toList))) := by
  refine ⟨by decide, by decide, by decide, ?_⟩
  have hpath : safeReturnPath (some (Utf16.ofAscii "/.//evil.com".toList)) = "//evil.com".toList := by decide
  rw [hpath]
  rintro ⟨⟨rest, hrest, hslash, -⟩, -⟩
  obtain rfl := (List.cons.inj hrest).2
  exact hslash rfl

end Zedspaces.Web
