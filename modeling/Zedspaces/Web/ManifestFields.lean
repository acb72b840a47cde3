/-
Every value the control plane writes into a manifest of its own accord passes the supervisor's rule for its field:
commits and pull-request refs are git refs, clone URLs are `https` URLs, the workspace directory is inside
`/workspaces`, the presigned archive URL names a public host, and the control plane's address is an origin.
-/
import Zedspaces.Web.Manifest

namespace Zedspaces.Web

open Lib Supervisor

variable {parse : Text → Except String Url}

/-! ## Characters -/

theorem alphanum_range {c : Char} (h : c.isAlphanum = true) : 48 ≤ c.toNat ∧ c.toNat ≤ 122 := by
  rw [Text.isAlphanum_iff, Text.isUpper_iff, Text.isLower_iff, Text.isDigit_iff] at h
  omega

theorem pathChar_range {c : Char} (h : Url.isPathChar c = true) : 45 ≤ c.toNat ∧ c.toNat ≤ 122 := by
  simp only [Url.isPathChar, Bool.or_eq_true, decide_eq_true_eq] at h
  rcases h with (((h | rfl) | rfl) | rfl) | rfl
  · have := alphanum_range h
    omega
  all_goals decide

/-- Printable ASCII is neither white space nor a control character. -/
theorem isPrintable_of_range {t : Text} (h : ∀ c ∈ t, 33 ≤ c.toNat ∧ c.toNat ≤ 126) : isPrintable t = true := by
  refine List.all_eq_true.2 fun c hc => ?_
  have hrange := h c hc
  simp only [isAsciiControl, Text.isWhitespace, Bool.not_eq_true', Bool.or_eq_false_iff, Bool.and_eq_false_iff,
    decide_eq_false_iff_not]
  omega

theorem isPrintable_of_pathChars {t : Text} (h : ∀ c ∈ t, Url.isPathChar c = true) : isPrintable t = true := by
  refine isPrintable_of_range fun c hc => ?_
  have := pathChar_range (h c hc)
  omega

/-! ## Git refs -/

/-- Which texts pass the rule for a git ref. -/
theorem checkGitRef_ok {value : Text} {what : String} : checkGitRef value what = .ok () ↔
    value ≠ [] ∧ ¬ ['-'] <+: value ∧
      ¬ (¬ isPrintable value = true ∨ (value.any fun c => c ∈ ['~', '^', ':', '?', '*', '[', '\\']) = true) ∧
      ¬ (['.', '.'] <:+: value ∨ ['@', '\x7b'] <:+: value ∨ ['/', '/'] <:+: value ∨ ['/'] <+: value ∨
        ['/'] <:+ value ∨ ['.'] <:+ value ∨ ".lock".toList <:+ value ∨ value = ['@']) := by
  unfold checkGitRef
  rw [check_bind_ok, check_bind_ok, check_bind_ok, bailIf_ok, bailIf_ok, bailIf_ok, bailIf_ok]

/-- A text without dashes, dots and slashes, of letters, digits and slashes that do not touch. -/
theorem checkGitRef_of_chars {value : Text} {what : String} (hne : value ≠ [])
    (hchars : ∀ c ∈ value, c.isAlphanum = true ∨ c = '/') (hslash : ¬ ['/', '/'] <:+: value)
    (hfirst : ¬ ['/'] <+: value) (hlast : ¬ ['/'] <:+ value) : checkGitRef value what = .ok () := by
  have hnot : ∀ c, c.isAlphanum = false → c ≠ '/' → c ∉ value := by
    intro c hc hne hmem
    rcases hchars c hmem with h | h
    · rw [hc] at h
      cases h
    · exact hne h
  have hdot : '.' ∉ value := hnot '.' (by decide) (by decide)
  have hat : '@' ∉ value := hnot '@' (by decide) (by decide)
  refine checkGitRef_ok.2 ⟨hne, fun h => hnot '-' (by decide) (by decide) (h.subset (by simp)), ?_, ?_⟩
  · rintro (h | h)
    · refine h (isPrintable_of_pathChars fun c hc => ?_)
      rcases hchars c hc with h | rfl
      · simp [Url.isPathChar, h]
      · decide
    · obtain ⟨c, hc, hspecial⟩ := List.any_eq_true.1 h
      have hspecial : c ∈ ['~', '^', ':', '?', '*', '[', '\\'] := of_decide_eq_true hspecial
      have hall : ∀ c ∈ ['~', '^', ':', '?', '*', '[', '\\'], c.isAlphanum = false ∧ c ≠ '/' :=
        Text.forall_mem_of_all (by decide)
      exact hnot c (hall c hspecial).1 (hall c hspecial).2 hc
  · rintro (h | h | h | h | h | h | h | h)
    · exact hdot (h.subset (by simp))
    · exact hat (h.subset (by simp))
    · exact hslash h
    · exact hfirst h
    · exact hlast h
    · exact hdot (h.subset (by simp))
    · exact hdot (h.subset (by decide))
    · exact hat (h ▸ List.mem_singleton_self _)

/-- A commit id: forty hexadecimal digits. -/
structure IsSha (sha : Text) : Prop where
  length : sha.length = 40
  hex : ∀ c ∈ sha, isHex c = true

theorem isHex_alphanum {c : Char} (h : isHex c = true) : c.isAlphanum = true := by
  simp only [isHex, Bool.or_eq_true, Bool.and_eq_true, decide_eq_true_eq] at h
  rcases h with h | ⟨h₁, h₂⟩
  · exact Text.isAlphanum_iff.2 (.inr (.inr h))
  · have hfz : 'f' ≤ 'z' := by decide
    have hle : c ≤ 'z' := Char.le_trans h₂ hfz
    exact Text.isAlphanum_iff.2 (.inr (.inl (Text.isLower_iff.2 ⟨h₁, hle⟩)))

theorem IsSha.ref {sha : Text} (h : IsSha sha) (what : String) : checkGitRef sha what = .ok () := by
  have hslash : '/' ∉ sha := fun hmem => absurd (isHex_alphanum (h.hex _ hmem)) (by decide)
  have hne : sha ≠ [] := by
    rintro rfl
    cases h.length
  exact checkGitRef_of_chars hne (fun c hc => .inl (isHex_alphanum (h.hex c hc))) (fun hi => hslash (hi.subset (by simp)))
    (fun hp => hslash (hp.subset (by simp))) fun hs => hslash (hs.subset (by simp))

theorem digit_alphanum {n : Nat} {c : Char} (h : c ∈ Nat.toDigits 10 n) : c.isAlphanum = true := by
  have hdigit : c.isDigit = true := Nat.isDigit_of_mem_toDigits (by omega) (by omega) h
  exact Text.isAlphanum_iff.2 (.inr (.inr hdigit))

/-- Two slashes in a row stand behind a slash that a name without slashes and something else than a slash surround. -/
theorem slashes_behind {name rest : Text} (hname : '/' ∉ name) (hrest : ¬ ['/'] <+: rest)
    (h : ['/', '/'] <:+: name ++ '/' :: rest) : ['/', '/'] <:+: rest := by
  induction name with
  | nil =>
    rcases List.infix_cons_iff.1 h with h | h
    · exact absurd (List.cons_prefix_cons.1 h).2 hrest
    · exact h
  | cons c name ih =>
    rcases List.infix_cons_iff.1 h with h | h
    · exact absurd (List.mem_cons.2 (.inl (List.cons_prefix_cons.1 h).1)) hname
    · exact ih (fun hmem => hname (List.mem_cons_of_mem _ hmem)) h

/-- A text without a slash neither starts with one nor has two in a row. -/
theorem no_slash {t : Text} (h : '/' ∉ t) : ¬ ['/', '/'] <:+: t ∧ ¬ ['/'] <+: t :=
  ⟨fun hi => h (hi.subset (by simp)), fun hp => h (hp.subset (by simp))⟩

theorem not_slash_cons {c : Char} {t : Text} (hc : c ≠ '/') : ¬ ['/'] <+: c :: t :=
  fun h => hc (List.cons_prefix_cons.1 h).1.symm

theorem not_slash_concat {c : Char} {t : Text} (hc : c ≠ '/') : ¬ ['/'] <:+ t ++ [c] := by
  rintro ⟨s, hs⟩
  exact hc (List.cons.inj (List.append_inj_right' hs rfl)).1.symm

theorem pullRef_chars {n : Nat} {c : Char} (h : c ∈ pullRef n) : c.isAlphanum = true ∨ c = '/' := by
  have hfixed : ∀ c ∈ "refs/pull/".toList ++ "/head".toList, c.isAlphanum = true ∨ c = '/' :=
    Text.forall_mem_of_all (by decide)
  rcases List.mem_append.1 h with h | h
  · rcases List.mem_append.1 h with h | h
    · exact hfixed c (List.mem_append_left _ h)
    · exact .inl (digit_alphanum h)
  · exact hfixed c (List.mem_append_right _ h)

theorem pullRef_ref (n : Nat) (what : String) : checkGitRef (pullRef n) what = .ok () := by
  have hdigits : '/' ∉ Nat.toDigits 10 n := fun h => absurd (digit_alphanum h) (by decide)
  have hhead : ¬ ['/'] <+: Nat.toDigits 10 n ++ '/' :: "head".toList := by
    obtain ⟨c, digits, hcons⟩ := List.exists_cons_of_ne_nil (Nat.toDigits_ne_nil (n := n) (b := 10))
    rw [hcons] at hdigits ⊢
    exact not_slash_cons fun hc => hdigits (hc ▸ List.mem_cons_self ..)
  have hslash : ¬ ['/', '/'] <:+: pullRef n := by
    have hparts : pullRef n =
        "refs".toList ++ '/' :: ("pull".toList ++ '/' :: (Nat.toDigits 10 n ++ '/' :: "head".toList)) := rfl
    rw [hparts]
    intro h
    have h := @slashes_behind "refs".toList _ (by decide) (not_slash_cons (by decide)) h
    have h := @slashes_behind "pull".toList _ (by decide) hhead h
    have h := slashes_behind hdigits (not_slash_cons (by decide)) h
    exact (no_slash (t := "head".toList) (by decide)).1 h
  have hfirst : ¬ ['/'] <+: pullRef n := by
    obtain ⟨t, ht⟩ : ∃ t, pullRef n = 'r' :: t := ⟨_, rfl⟩
    rw [ht]
    exact not_slash_cons (by decide)
  have hlast : ¬ ['/'] <:+ pullRef n := by
    have hend : pullRef n = ("refs/pull/".toList ++ Nat.toDigits 10 n ++ "/hea".toList) ++ ['d'] := by
      rw [List.append_assoc]
      rfl
    rw [hend]
    exact not_slash_concat (by decide)
  have hne : pullRef n ≠ [] := List.append_ne_nil_of_right_ne_nil _ (by decide)
  exact checkGitRef_of_chars hne (fun c hc => pullRef_chars hc) hslash hfirst hlast

/-! ## The repository -/

/-- A repository as GitHub names one. -/
structure Repo.Named (repo : Repo) : Prop where
  owner : ∀ c ∈ repo.owner, c.isAlphanum = true ∨ c = '-'
  name : ∀ c ∈ repo.name, c.isAlphanum = true ∨ c = '-' ∨ c = '_' ∨ c = '.'
  nonempty : repo.name ≠ []
  dot : repo.name ≠ ['.'] ∧ repo.name ≠ ['.', '.']

variable {repo : Repo}

theorem Repo.Named.path (h : repo.Named) : ∀ c ∈ repo.owner ++ '/' :: repo.name ++ ".git".toList,
    Url.isPathChar c = true := by
  have hgit : ∀ c ∈ ".git".toList, Url.isPathChar c = true := Text.forall_mem_of_all (by decide)
  intro c hc
  rcases List.mem_append.1 hc with hc | hc
  · rcases List.mem_append.1 hc with hc | hc
    · rcases h.owner c hc with h | rfl
      · simp [Url.isPathChar, h]
      · decide
    · rcases List.mem_cons.1 hc with rfl | hc
      · decide
      · rcases h.name c hc with h | rfl | rfl | rfl
        · simp [Url.isPathChar, h]
        all_goals decide
  · exact hgit c hc

theorem plainHost_github : Url.PlainHost "github.com".toList :=
  ⟨"github".toList, "com".toList, by decide, by decide, rfl, Text.forall_mem_of_all (by decide)⟩

theorem cloneUrl_https {d : Deployment} (hstd : Url.Standard d.parse) (hbackend : d.env.backend = .vercel)
    (h : repo.Named) : HttpsUrl d.parse (cloneUrl d repo.owner repo.name) := by
  have hlocal : isLocalRepo d repo.owner = false := by simp [isLocalRepo, hbackend]
  have hurl : cloneUrl d repo.owner repo.name = Url.https ++ Url.schemeEnd ++ "github.com".toList ++
      '/' :: (repo.owner ++ '/' :: repo.name ++ ".git".toList) := by
    have hstart : "https://github.com/".toList = Url.https ++ Url.schemeEnd ++ "github.com".toList ++ ['/'] := rfl
    rw [cloneUrl, hlocal, if_neg Bool.false_ne_true, hstart]
    simp only [List.append_assoc, List.cons_append, List.nil_append]
  rw [hurl]
  refine ⟨?_, ?_, ?_⟩
  · intro hdash
    exact absurd (List.cons_prefix_cons.1 (show ['-'] <+: 'h' :: _ from hdash)).1 (by decide)
  · have hstart : isPrintable (Url.https ++ Url.schemeEnd ++ "github.com".toList) = true := by decide
    have hrest := isPrintable_of_pathChars (List.forall_mem_cons.2 ⟨(by decide : Url.isPathChar '/' = true), h.path⟩)
    rw [isPrintable, List.all_append, Bool.and_eq_true]
    exact ⟨hstart, hrest⟩
  · obtain ⟨url, hparse, hscheme⟩ := hstd.plain _ _ plainHost_github h.path
    obtain ⟨host, hhost, -⟩ := hstd.host _ _ hparse (.inl hscheme)
    exact ⟨url, hparse, hscheme, by rw [hhost]; exact Option.some_ne_none _⟩

theorem Repo.Named.isName (h : repo.Named) : Path.IsName repo.name where
  nonempty := h.nonempty
  slash hmem := by
    rcases h.name _ hmem with h | h | h | h
    · exact absurd h (by decide)
    all_goals exact absurd h (by decide)
  dot := h.dot.1
  dots := h.dot.2

theorem isName_workspaces : Path.IsName "workspaces".toList := ⟨by decide, by decide, by decide, by decide⟩

/-- The components of the workspace directory. -/
theorem workspaceDir_components (h : repo.Named) : Path.components ("/workspaces/".toList ++ repo.name) =
    [.rootDir, .normal "workspaces".toList, .normal repo.name] :=
  Path.components_two isName_workspaces h.isName

theorem defaultWorkspacesDir_components :
    Path.components defaultWorkspacesDir = [.rootDir, .normal "workspaces".toList] := by decide

/-! ## The archive -/

def blobHost : Text := ".blob.vercel-storage.com".toList

/-- A presigned URL names a store's host. -/
structure Presigned (parse : Text → Except String Url) (presignGet : Text → Text) : Prop where
  url : ∀ pathname, ∃ store rest url, presignGet pathname = "https://".toList ++ store ++ blobHost ++ '/' :: rest ∧
    (∀ c ∈ store, c.isAlphanum = true ∨ c = '-' ∨ c = '.') ∧ parse (presignGet pathname) = .ok url ∧
    url.scheme = Url.https ∧ url.username = [] ∧ url.password = none ∧ url.host = some (store ++ blobHost)

theorem dropWhile_notMem {t : Text} {c : Char} (h : c ∉ t) : t.dropWhile (· = c) = t := by
  cases t with
  | nil => rfl
  | cons x t =>
    refine List.dropWhile_cons_of_neg ?_
    rw [decide_eq_true_eq]
    exact fun hx => h (hx ▸ List.mem_cons_self ..)

/-- Texts that end alike end in the same character. -/
theorem last_eq {a b : Text} {x y : Char} (h : a ++ [x] <:+ b ++ [y]) : x = y := by
  obtain ⟨s, hs⟩ := h
  rw [← List.append_assoc] at hs
  exact (List.cons.inj (List.append_inj_right' hs rfl)).1

theorem isPublicDomain_blob (store : Text) : isPublicDomain (store ++ blobHost) = true := by
  have hend : blobHost = ".blob.vercel-storage.co".toList ++ ['m'] := rfl
  have hdots : ((store ++ blobHost).reverse.dropWhile (· = '.')).reverse = store ++ blobHost := by
    rw [hend, ← List.append_assoc, List.reverse_append]
    show (('m' :: _).dropWhile _).reverse = _
    rw [List.dropWhile_cons_of_neg (by decide)]
    simp
  have hlower : (store ++ blobHost).map Char.toLower = store.map Char.toLower ++ blobHost := by
    rw [List.map_append]
    rfl
  have hdot : '.' ∈ store.map Char.toLower ++ blobHost := List.mem_append_right _ (by decide)
  have hsuffix : ∀ (p : Text) (x : Char), x ≠ 'm' → (p ++ [x]).isSuffixOf (store.map Char.toLower ++ blobHost) = false := by
    intro p x hx
    refine eq_false_of_ne_true fun h => ?_
    rw [List.isSuffixOf_iff_suffix, hend, ← List.append_assoc] at h
    exact hx (last_eq h)
  unfold isPublicDomain
  simp only
  rw [hdots, hlower, if_neg]
  · have h₁ := hsuffix ".localhos".toList 't' (by decide)
    have h₂ := hsuffix ".loca".toList 'l' (by decide)
    have h₃ := hsuffix ".interna".toList 'l' (by decide)
    have h₄ := hsuffix ".home.arp".toList 'a' (by decide)
    show (!(_ || _ || _ || _)) = true
    erw [h₁, h₂, h₃, h₄]
    rfl
  · rintro (h | h | h)
    · rw [h] at hdot
      cases hdot
    · exact h hdot
    · rw [h] at hdot
      exact absurd hdot (by decide)

theorem checkTarballUrl_presigned {presignGet : Text → Text} (h : Presigned parse presignGet) (pathname : Text) :
    checkTarballUrl parse (presignGet pathname) false = .ok () := by
  obtain ⟨store, rest, url, -, hstore, hparse, hscheme, huser, hpassword, hhost⟩ := h.url pathname
  have hchars : ∀ c ∈ store ++ blobHost, c.isAlphanum = true ∨ c = '-' ∨ c = '.' := by
    have hblob : ∀ c ∈ blobHost, c.isAlphanum = true ∨ c = '-' ∨ c = '.' :=
      Text.forall_mem_of_all (by decide)
    intro c hc
    rcases List.mem_append.1 hc with hc | hc
    · exact hstore c hc
    · exact hblob c hc
  have hopen : '[' ∉ store ++ blobHost := fun h => absurd (hchars _ h) (by decide)
  have hclose : ']' ∉ store ++ blobHost := fun h => absurd (hchars _ h) (by decide)
  have hbare : (((store ++ blobHost).dropWhile (· = '[')).reverse.dropWhile (· = ']')).reverse = store ++ blobHost := by
    rw [dropWhile_notMem hopen, dropWhile_notMem fun h => hclose (List.mem_reverse.1 h), List.reverse_reverse]
  have hip : IpAddr.parse (store ++ blobHost) = none := by
    cases hparse : IpAddr.parse (store ++ blobHost) with
    | none => rfl
    | some ip =>
      have hv : 'v' ∈ store ++ blobHost := List.mem_append_right _ (by decide)
      exact absurd (IpAddr.parse_chars hparse 'v' hv) (by decide)
  unfold checkTarballUrl
  rw [bind_ok]
  refine ⟨url, mapError_ok.2 hparse, ?_⟩
  rw [check_bind_ok, check_bind_ok, bailIf_ok, bailIf_ok]
  refine ⟨fun h => h.1 hscheme, ?_, ?_⟩
  · rw [huser, hpassword]
    simp
  · rw [hhost]
    simp only [Bool.false_eq_true, if_false]
    rw [hbare, hip]
    exact bailIf_ok.2 (not_not.2 (isPublicDomain_blob store))

/-! ## The control plane's address -/

/-- A text that is not empty ends in one of its characters. -/
theorem exists_concat {t : Text} (h : t ≠ []) : ∃ init, ∃ c ∈ t, t = init ++ [c] := by
  obtain ⟨init, c, rfl⟩ := (List.eq_nil_or_concat t).resolve_left h
  exact ⟨init, c, by simp, List.concat_eq_append⟩

/-- An origin ends in the host's last character or in a digit of its port. -/
theorem origin_end {url : Url} {host : Text} (hhost : url.host = some host) (hne : host ≠ []) (hslash : '/' ∉ host) :
    ∃ init c, url.origin = init ++ [c] ∧ c ≠ '/' := by
  rw [Url.origin, hhost]
  cases url.port with
  | none =>
    obtain ⟨init, c, hc, hend⟩ := exists_concat hne
    refine ⟨url.scheme ++ Url.schemeEnd ++ init, c, ?_, fun h => hslash (h ▸ hc)⟩
    show _ ++ host ++ [] = _
    rw [hend, List.append_nil, List.append_assoc]
    simp
  | some port =>
    obtain ⟨init, c, hc, hend⟩ := exists_concat (Nat.toDigits_ne_nil (n := port) (b := 10))
    refine ⟨url.scheme ++ Url.schemeEnd ++ host ++ ':' :: init, c, ?_, fun h => ?_⟩
    · show _ ++ host ++ ':' :: Nat.toDigits 10 port = _
      rw [hend]
      simp
    · exact absurd (digit_alphanum (h ▸ hc)) (by decide)

theorem isOrigin_origin (hstd : Url.Standard parse) {t : Text} {url : Url} (hparse : parse t = .ok url)
    (hscheme : url.scheme = Url.https) : isOrigin parse url.origin = true := by
  obtain ⟨host, hhost, hne, hslash⟩ := hstd.host t url hparse (.inl hscheme)
  have hend : ['/'].isSuffixOf url.origin = false := by
    refine eq_false_of_ne_true fun h => ?_
    obtain ⟨init, c, horigin, hc⟩ := origin_end hhost hne hslash
    rw [List.isSuffixOf_iff_suffix, horigin] at h
    exact not_slash_concat hc h
  unfold isOrigin
  rw [hstd.origin t url hparse (.inl hscheme)]
  simp [hscheme, hhost, hend]

end Zedspaces.Web
