/-
The strings of a JSON text: what stands between quotes, read. The text of a string is read character by character
(`Spells`), each from itself or from an escape; an automaton that counts the characters of an escape knows where one
begins (`EscapeState`). In a text that a serializer wrote (`Layout`), what is spelled by a piece that begins where a
character may begin and has a backslash in it is part of a string, and spelled as the serializer would
(`Layout.spelled`).
-/
import Mathlib.Data.List.Infix
import Zedspaces.Lib.Json

namespace Zedspaces.Lib.Json

variable {t t' s s' raw raw' rest a b : Text} {c d : Char} {found strs strs' : List Text}

/-! ## Spelling -/

/-- The text between two quotes that is read as a string. -/
inductive Spells : Text → Text → Prop
  | nil : Spells [] []
  | plain {c : Char} {raw s : Text} : c ≠ '"' → c ≠ '\\' → Spells raw s → Spells (c :: raw) (c :: s)
  | escape {c d : Char} {raw s : Text} : unescape c = some d → Spells raw s → Spells ('\\' :: c :: raw) (d :: s)
  | hex {h₁ h₂ h₃ h₄ d : Char} {raw s : Text} : readHex [h₁, h₂, h₃, h₄] = some d → Spells raw s →
      Spells ('\\' :: 'u' :: h₁ :: h₂ :: h₃ :: h₄ :: raw) (d :: s)

theorem readChars_spells (h : Spells raw s) (rest : Text) : readChars (raw ++ '"' :: rest) = some (s, rest) := by
  induction h with
  | nil => rfl
  | plain hquote hback _ ih =>
    rw [List.cons_append, readChars_plain hquote hback, ih]
    rfl
  | @escape c d raw s hc _ ih =>
    have hu : c ≠ 'u' := by
      rintro rfl
      cases hc
    rw [List.cons_append, List.cons_append, readChars, hc, ih]
    · rfl
    · exact fun _ _ _ _ _ h => absurd h hu
  | hex hd _ ih =>
    rw [List.cons_append, List.cons_append, List.cons_append, List.cons_append, List.cons_append, List.cons_append,
      readChars, hd, ih]
    rfl

theorem spells_of_readChars (h : readChars t = some (s, rest)) : ∃ raw, t = raw ++ '"' :: rest ∧ Spells raw s := by
  fun_induction readChars t generalizing s with
  | case1 => cases h
  | case2 rest' =>
    cases h
    exact ⟨[], rfl, .nil⟩
  | case3 h₁ h₂ h₃ h₄ rest' ih =>
    obtain ⟨d, hd, h⟩ := Option.bind_eq_some_iff.1 h
    obtain ⟨⟨s', rest''⟩, hs', h⟩ := Option.bind_eq_some_iff.1 h
    cases h
    obtain ⟨raw, rfl, hraw⟩ := ih hs'
    exact ⟨_, rfl, .hex hd hraw⟩
  | case4 c rest' hu ih =>
    obtain ⟨d, hd, h⟩ := Option.bind_eq_some_iff.1 h
    obtain ⟨⟨s', rest''⟩, hs', h⟩ := Option.bind_eq_some_iff.1 h
    cases h
    obtain ⟨raw, rfl, hraw⟩ := ih hs'
    exact ⟨_, rfl, .escape hd hraw⟩
  | case5 c rest' hquote hhex hback ih =>
    obtain ⟨⟨s', rest''⟩, hs', h⟩ := Option.bind_eq_some_iff.1 h
    cases h
    obtain ⟨raw, rfl, hraw⟩ := ih hs'
    have hplain : c ≠ '\\' := by
      intro hc
      obtain ⟨x, l, hl⟩ := List.exists_cons_of_ne_nil (List.append_ne_nil_of_right_ne_nil raw (List.cons_ne_nil '"' _))
      exact hback x l hc hl
    exact ⟨c :: raw, rfl, .plain hquote hplain hraw⟩

theorem readChars_length (h : readChars t = some (s, rest)) : rest.length < t.length := by
  obtain ⟨raw, rfl, -⟩ := spells_of_readChars h
  rw [List.length_append, List.length_cons]
  omega

/-- A quote that is not escaped ends the string. -/
theorem Spells.quote_unique (h : Spells raw s) (h' : Spells (raw ++ '"' :: a) s') : False := by
  have hread := readChars_spells h (a ++ '"' :: [])
  have hread' := readChars_spells h' []
  rw [List.append_assoc, List.cons_append, hread] at hread'
  have hlen := congrArg List.length (Prod.mk.inj (Option.some.inj hread')).2
  rw [List.length_append] at hlen
  cases hlen

theorem Spells.unique (h : Spells raw s) (h' : Spells raw s') : s = s' := by
  have hread := readChars_spells h []
  rw [readChars_spells h' []] at hread
  exact (Prod.mk.inj (Option.some.inj hread)).1.symm

/-- Where no escape is read, the text is the string. -/
theorem Spells.eq_of_plain (h : Spells raw s) (hraw : '\\' ∉ raw) : raw = s := by
  induction h with
  | nil => rfl
  | @plain c raw s _ _ _ ih => rw [ih fun hmem => hraw (List.mem_cons_of_mem c hmem)]
  | escape _ _ _ => exact absurd (List.mem_cons_self ..) hraw
  | hex _ _ _ => exact absurd (List.mem_cons_self ..) hraw

/-- The text of a part of the string. -/
theorem Spells.split {u v : Text} (h : Spells raw (u ++ v)) : ∃ r r', raw = r ++ r' ∧ Spells r u ∧ Spells r' v := by
  induction u generalizing raw with
  | nil => exact ⟨[], raw, rfl, .nil, h⟩
  | cons c u ih =>
    cases h with
    | plain hquote hback h =>
      obtain ⟨r, r', rfl, hr, hr'⟩ := ih h
      exact ⟨_, r', rfl, .plain hquote hback hr, hr'⟩
    | escape hc h =>
      obtain ⟨r, r', rfl, hr, hr'⟩ := ih h
      exact ⟨_, r', rfl, .escape hc hr, hr'⟩
    | hex hd h =>
      obtain ⟨r, r', rfl, hr, hr'⟩ := ih h
      exact ⟨_, r', rfl, .hex hd hr, hr'⟩

/-- A text without quotes and backslashes is read as it stands. -/
theorem Spells.of_plain_append (hplain : ∀ c ∈ a, c ≠ '"' ∧ c ≠ '\\') (h : Spells (a ++ raw) s) :
    ∃ s', s = a ++ s' ∧ Spells raw s' := by
  induction a generalizing s with
  | nil => exact ⟨s, rfl, h⟩
  | cons c a ih =>
    obtain ⟨hc, ha⟩ := List.forall_mem_cons.1 hplain
    rw [List.cons_append] at h
    generalize htail : a ++ raw = tail at h
    cases h with
    | plain _ _ h =>
      obtain ⟨s', rfl, hs'⟩ := ih ha (htail ▸ h)
      exact ⟨s', rfl, hs'⟩
    | escape _ _ => exact absurd rfl hc.2
    | hex _ _ => exact absurd rfl hc.2

/-- A character that is part of an escape. -/
def InEscape (c : Char) : Prop := c = '\\' ∨ c = 'u' ∨ (unescape c).isSome = true ∨ (hexValue c).isSome = true

theorem hexValue_of_readHex {digits : Text} (h : readHex digits = some d) : ∀ c ∈ digits, (hexValue c).isSome = true := by
  obtain ⟨n, hn, -⟩ := Option.map_eq_some_iff.1 h
  clear h
  generalize 0 = start at hn
  induction digits generalizing start with
  | nil => exact fun _ hmem => nomatch hmem
  | cons c digits ih =>
    rw [List.foldlM_cons] at hn
    obtain ⟨m, hm, hn⟩ := Option.bind_eq_some_iff.1 hn
    obtain ⟨v, hv, -⟩ := Option.map_eq_some_iff.1 hm
    exact List.forall_mem_cons.2 ⟨by rw [hv]; rfl, ih m hn⟩

/-- What comes before a character is all behind a text that does not hold it, or within it. -/
theorem append_eq_append_cons (pre raw : Text) (hc : c ∉ pre) (h : pre ++ raw = a ++ c :: b) :
    ∃ a', a = pre ++ a' ∧ raw = a' ++ c :: b := by
  rcases List.append_eq_append_iff.1 h with ⟨a', ha, hraw⟩ | ⟨z, hz, hraw⟩
  · exact ⟨a', ha, hraw⟩
  · cases z with
    | nil =>
      rw [List.append_nil] at hz
      exact ⟨[], by rw [hz, List.append_nil], hraw.symm⟩
    | cons x z =>
      obtain ⟨rfl, -⟩ := List.cons_eq_cons.1 hraw
      exact absurd (hz ▸ List.mem_append_right a (List.mem_cons_self ..)) hc

/-- Any other character is read as itself, and what is before it and behind it on its own. -/
theorem Spells.cut (hc : ¬ InEscape c) (h : Spells (a ++ c :: b) s) :
    ∃ u v, s = u ++ c :: v ∧ Spells a u ∧ Spells b v := by
  generalize ht : a ++ c :: b = t at h
  induction h generalizing a with
  | nil => exact absurd ht (List.append_ne_nil_of_right_ne_nil a (List.cons_ne_nil c b))
  | @plain x raw s hquote hback h ih =>
    cases a with
    | nil =>
      obtain ⟨rfl, rfl⟩ := List.cons_eq_cons.1 ht
      exact ⟨[], s, rfl, .nil, h⟩
    | cons y a =>
      obtain ⟨rfl, htail⟩ := List.cons_eq_cons.1 ht
      obtain ⟨u, v, rfl, hu, hv⟩ := ih htail
      exact ⟨y :: u, v, rfl, .plain hquote hback hu, hv⟩
  | @escape x d raw s hx h ih =>
    have hpre : c ∉ ['\\', x] := by
      intro hmem
      rcases List.mem_cons.1 hmem with rfl | hmem
      · exact hc (.inl rfl)
      · rw [List.mem_singleton.1 hmem] at hc
        exact hc (.inr (.inr (.inl (by rw [hx]; rfl))))
    obtain ⟨a', rfl, hraw⟩ := append_eq_append_cons ['\\', x] raw hpre ht.symm
    obtain ⟨u, v, rfl, hu, hv⟩ := ih hraw.symm
    exact ⟨d :: u, v, rfl, .escape hx hu, hv⟩
  | @hex h₁ h₂ h₃ h₄ d raw s hd h ih =>
    have hpre : c ∉ ['\\', 'u', h₁, h₂, h₃, h₄] := by
      intro hmem
      rcases List.mem_cons.1 hmem with rfl | hmem
      · exact hc (.inl rfl)
      · rcases List.mem_cons.1 hmem with rfl | hmem
        · exact hc (.inr (.inl rfl))
        · exact hc (.inr (.inr (.inr (hexValue_of_readHex hd c hmem))))
    obtain ⟨a', rfl, hraw⟩ := append_eq_append_cons ['\\', 'u', h₁, h₂, h₃, h₄] raw hpre ht.symm
    obtain ⟨u, v, rfl, hu, hv⟩ := ih hraw.symm
    exact ⟨d :: u, v, rfl, .hex hd hu, hv⟩

/-! ## Where characters begin -/

/-- Between two characters, behind a backslash, or with so many digits of an escape to come. -/
inductive EscapeState where
  | between
  | escaped
  | digits (n : Nat)
  deriving DecidableEq, Repr

namespace EscapeState

def step : EscapeState → Char → EscapeState
  | between, c => if c = '\\' then escaped else between
  | escaped, c => if c = 'u' then digits 3 else between
  | digits (n + 1), c => if (hexValue c).isSome then digits n else if c = '\\' then escaped else between
  | digits 0, c => if (hexValue c).isSome then between else if c = '\\' then escaped else between

abbrev run (st : EscapeState) (t : Text) : EscapeState := t.foldl step st

theorem run_append (st : EscapeState) (a b : Text) : st.run (a ++ b) = (st.run a).run b := List.foldl_append ..

end EscapeState

open EscapeState

theorem step_between (hback : c ≠ '\\') : between.step c = between := if_neg hback

/-- Behind a string's text a character may begin. -/
theorem Spells.run (h : Spells raw s) : between.run raw = between := by
  induction h with
  | nil => rfl
  | plain _ hback _ ih =>
    show (between.step _).run _ = between
    rw [step_between hback]
    exact ih
  | @escape c d raw s hc _ ih =>
    have hu : c ≠ 'u' := by
      rintro rfl
      cases hc
    show (escaped.step c).run raw = between
    rw [show escaped.step c = between from if_neg hu]
    exact ih
  | @hex h₁ h₂ h₃ h₄ d raw s hd _ ih =>
    have hdigits := hexValue_of_readHex hd
    show (((((digits 3).step h₁).step h₂).step h₃).step h₄).run raw = between
    have hstep : ∀ n, ∀ c ∈ [h₁, h₂, h₃, h₄], (digits (n + 1)).step c = digits n ∧ (digits 0).step c = between :=
      fun n c hmem => ⟨if_pos (hdigits c hmem), if_pos (hdigits c hmem)⟩
    rw [(hstep 2 h₁ (by simp)).1, (hstep 1 h₂ (by simp)).1, (hstep 0 h₃ (by simp)).1, (hstep 0 h₄ (by simp)).2]
    exact ih

/-! ## What a serializer writes -/

/-- A character is written as itself or as one of the two kinds of escapes. -/
theorem escape_cases (c : Char) : (escape c = [c] ∧ c ≠ '"' ∧ c ≠ '\\') ∨
    (∃ x, escape c = ['\\', x] ∧ unescape x = some c) ∨
    ∃ h₁ h₂, escape c = ['\\', 'u', '0', '0', h₁, h₂] ∧ readHex ['0', '0', h₁, h₂] = some c := by
  have hc : Char.ofNat c.toNat = c := Char.ofNat_toNat c
  unfold escape
  split
  all_goals first
    | next h =>
      rw [h] at hc
      subst hc
      exact .inr (.inl ⟨_, rfl, rfl⟩)
    | skip
  next hquote hback _ _ _ _ _ =>
    split
    · next hcontrol =>
      have hhex := readHex_control c.toNat hcontrol
      rw [hc] at hhex
      exact .inr (.inr ⟨_, _, rfl, hhex⟩)
    · refine .inl ⟨rfl, ?_, ?_⟩
      · rintro rfl
        exact hquote rfl
      · rintro rfl
        exact hback rfl

theorem Spells.cons_escape (h : Spells raw s) (c : Char) : Spells (Json.escape c ++ raw) (c :: s) := by
  rcases escape_cases c with ⟨hc, hquote, hback⟩ | ⟨x, hc, hx⟩ | ⟨h₁, h₂, hc, hd⟩
  · rw [hc]
    exact .plain hquote hback h
  · rw [hc]
    exact .escape hx h
  · rw [hc]
    exact .hex hd h

theorem spells_escape (s : Text) : Spells (s.flatMap escape) s := by
  induction s with
  | nil => exact .nil
  | cons c s ih =>
    rw [List.flatMap_cons]
    exact ih.cons_escape c

/-- No character begins within an escape. -/
theorem escape_whole {p q : Text} (h : escape c = p ++ q) (hne : p ≠ []) (hrun : between.run p = between) : q = [] := by
  rcases escape_cases c with ⟨hc, -, -⟩ | ⟨x, hc, -⟩ | ⟨h₁, h₂, hc, hd⟩
  · rw [hc] at h
    rcases p with _ | ⟨_, p⟩
    · exact absurd rfl hne
    · exact (List.append_eq_nil_iff.1 (List.cons_eq_cons.1 h).2.symm).2
  · rw [hc] at h
    rcases p with _ | ⟨_, _ | ⟨_, p⟩⟩
    · exact absurd rfl hne
    · cases h
      cases hrun
    · exact (List.append_eq_nil_iff.1 (List.cons_eq_cons.1 (List.cons_eq_cons.1 h).2).2.symm).2
  · rw [hc] at h
    have hh₁ : (digits 1).step h₁ = digits 0 := if_pos (hexValue_of_readHex hd h₁ (by simp))
    rcases p with _ | ⟨_, _ | ⟨_, _ | ⟨_, _ | ⟨_, _ | ⟨_, _ | ⟨_, p⟩⟩⟩⟩⟩⟩
    · exact absurd rfl hne
    · cases h
      cases hrun
    · cases h
      cases hrun
    · cases h
      cases hrun
    · cases h
      cases hrun
    · cases h
      have hrun' : (digits 1).step h₁ = between := hrun
      rw [hh₁] at hrun'
      cases hrun'
    · simp only [List.cons_append, List.cons.injEq] at h
      exact (List.append_eq_nil_iff.1 h.2.2.2.2.2.2.symm).2

/-- Where a character may begin in the text of a string, the text is cut between two characters of the string. -/
theorem flatMap_escape_cut (h : s.flatMap escape = a ++ b) (hrun : between.run a = between) :
    ∃ u v, s = u ++ v ∧ a = u.flatMap escape ∧ b = v.flatMap escape := by
  induction s generalizing a with
  | nil =>
    obtain ⟨rfl, rfl⟩ := List.append_eq_nil_iff.1 h.symm
    exact ⟨[], [], rfl, rfl, rfl⟩
  | cons c s ih =>
    rw [List.flatMap_cons] at h
    rcases List.append_eq_append_iff.1 h with ⟨a', rfl, htail⟩ | ⟨q, hq, hb⟩
    · have hc : between.run (escape c) = between := by
        have hspells := (Spells.nil.cons_escape c).run
        rwa [List.append_nil] at hspells
      rw [run_append, hc] at hrun
      obtain ⟨u, v, rfl, rfl, rfl⟩ := ih htail hrun
      exact ⟨c :: u, v, rfl, (List.flatMap_cons ..).symm, rfl⟩
    · by_cases ha : a = []
      · subst ha
        refine ⟨[], c :: s, rfl, rfl, ?_⟩
        rw [hb, List.flatMap_cons, hq, List.nil_append]
      · have hnil := escape_whole hq ha hrun
        subst hnil
        refine ⟨[c], s, rfl, ?_, hb⟩
        rw [List.flatMap_singleton, hq, List.append_nil]

/-- A text whose quotes are those of the strings that the serializer wrote into it. -/
inductive Layout : List Text → Text → Prop
  | plain {t : Text} : (∀ c ∈ t, c ≠ '"' ∧ c ≠ '\\') → Layout [] t
  | string (s : Text) : Layout [s] (Json.string s)
  | append {strs strs' : List Text} {t t' : Text} : Layout strs t → Layout strs' t' → Layout (strs ++ strs') (t ++ t')

theorem layout_field {name value : Text} (h : Layout strs value) : Layout (name :: strs) (field name value) := by
  have hcolon : Layout [] [':'] := .plain (by decide)
  exact (Layout.string name).append (hcolon.append h)

theorem layout_object {β : Type} {fields : List β} {name value : β → Text} {strs : β → List Text}
    (h : ∀ f ∈ fields, Layout (strs f) (value f)) :
    Layout (fields.flatMap fun f => name f :: strs f) (object (fields.map fun f => (name f, value f))) := by
  have hitems : Layout (fields.flatMap fun f => name f :: strs f)
      ([','].intercalate ((fields.map fun f => (name f, value f)).map fun f => field f.1 f.2)) := by
    rw [List.map_map]
    induction fields with
    | nil => exact .plain (by rintro _ ⟨⟩)
    | cons f fields ih =>
      obtain ⟨hf, hfields⟩ := List.forall_mem_cons.1 h
      have hfield : Layout (name f :: strs f) (field (name f) (value f)) := layout_field hf
      cases fields with
      | nil =>
        rw [List.flatMap_singleton, List.map_singleton, List.intercalate_singleton]
        exact hfield
      | cons g fields =>
        have hcomma : Layout [] [','] := .plain (by decide)
        have hboth := (hfield.append hcomma).append (ih hfields)
        rw [List.append_nil] at hboth
        rw [List.flatMap_cons, List.map_cons, List.map_cons, List.intercalate_cons_cons]
        exact hboth
  have hopen : Layout [] ['\x7b'] := .plain (by decide)
  have hclose : Layout [] ['\x7d'] := .plain (by decide)
  have hall := hopen.append (hitems.append hclose)
  rwa [List.append_nil] at hall

/-- What is spelled with a backslash, from where a character may begin, is part of one of the strings and spelled as the
serializer would. -/
structure Spelled (strs : List Text) (t : Text) : Prop where
  part : ∀ a raw b w, t = a ++ (raw ++ b) → between.run a = between → Spells raw w → '\\' ∈ raw →
    ∃ s ∈ strs, w <:+: s ∧ raw = w.flatMap escape
  front : ∀ raw b w, t = raw ++ b → Spells raw w → '\\' ∉ raw

theorem run_plain (h : ∀ c ∈ t, c ≠ '"' ∧ c ≠ '\\') : between.run t = between := by
  induction t with
  | nil => rfl
  | cons c t ih =>
    obtain ⟨hc, ht⟩ := List.forall_mem_cons.1 h
    show (between.step c).run t = between
    rw [step_between hc.2]
    exact ih ht

theorem run_string (s : Text) : between.run (Json.string s) = between := by
  have hquote : between.run ['"'] = between := rfl
  show between.run (['"'] ++ s.flatMap Json.escape ++ ['"']) = between
  rw [run_append, run_append, hquote, (spells_escape s).run, hquote]

theorem Layout.run (h : Layout strs t) : between.run t = between := by
  induction h with
  | plain h => exact run_plain h
  | string s => exact run_string s
  | append _ _ ih ih' => rw [run_append, ih, ih']

/-- Outside the strings nothing is spelled with a backslash. -/
theorem front_append (hplain : ∀ c ∈ t, c ≠ '"' ∧ c ≠ '\\')
    (h : ∀ raw b w, rest = raw ++ b → Spells raw w → '\\' ∉ raw) (heq : t ++ rest = raw ++ b) (hraw : Spells raw s) :
    '\\' ∉ raw := by
  intro hback
  rcases List.append_eq_append_iff.1 heq with ⟨raw', rfl, hrest⟩ | ⟨t', rfl, -⟩
  · obtain ⟨w, rfl, hraw'⟩ := hraw.of_plain_append hplain
    rcases List.mem_append.1 hback with hback | hback
    · exact (hplain _ hback).2 rfl
    · exact h raw' b w hrest hraw' hback
  · exact (hplain _ (List.mem_append_left t' hback)).2 rfl

theorem Spelled.plain_append (hplain : ∀ c ∈ t, c ≠ '"' ∧ c ≠ '\\') (h : Spelled strs rest) : Spelled strs (t ++ rest) where
  front raw b w heq hraw := front_append hplain h.front heq hraw
  part a raw b w heq hrun hraw hback := by
    rcases List.append_eq_append_iff.1 heq with ⟨a', rfl, hrest⟩ | ⟨t', rfl, hb⟩
    · rw [run_append, run_plain hplain] at hrun
      exact h.part a' raw b w hrest hrun hraw hback
    · have hplain' : ∀ c ∈ t', c ≠ '"' ∧ c ≠ '\\' := fun c hc => hplain c (List.mem_append_right a hc)
      exact absurd hback (front_append hplain' h.front hb.symm hraw)

/-- A quote spells nothing. -/
theorem Spells.eq_nil_of_quote (h : Spells raw s) (heq : '"' :: rest = raw ++ b) : raw = [] := by
  cases h with
  | nil => rfl
  | plain hquote _ _ => exact absurd (List.cons_eq_cons.1 heq).1.symm hquote
  | escape _ _ => cases heq
  | hex _ _ => cases heq

theorem Spelled.string_append (s : Text) (h : Spelled strs rest) : Spelled (s :: strs) (Json.string s ++ rest) where
  front raw b w heq hraw hback := by
    rw [hraw.eq_nil_of_quote heq] at hback
    cases hback
  part a raw b w heq hrun hraw hback := by
    have hstring : Json.string s ++ rest = '"' :: (s.flatMap Json.escape ++ '"' :: rest) := by
      show '"' :: (s.flatMap Json.escape ++ ['"'] ++ rest) = _
      rw [List.append_assoc]
      rfl
    rw [hstring] at heq
    cases a with
    | nil =>
      rw [hraw.eq_nil_of_quote heq] at hback
      cases hback
    | cons c a =>
      obtain ⟨rfl, htail⟩ := List.cons_eq_cons.1 heq
      have hrun : between.run a = between := hrun
      rcases List.append_eq_append_iff.1 htail with ⟨z, rfl, hrest⟩ | ⟨z, hz, hb⟩
      · -- it begins behind the string
        rw [run_append, (spells_escape s).run] at hrun
        cases z with
        | nil =>
          rw [hraw.eq_nil_of_quote hrest] at hback
          cases hback
        | cons c z =>
          obtain ⟨rfl, hbehind⟩ := List.cons_eq_cons.1 hrest
          obtain ⟨s', hs', hw⟩ := h.part z raw b w hbehind hrun hraw hback
          exact ⟨s', List.mem_cons_of_mem _ hs', hw⟩
      · -- it begins within the string, and ends there
        obtain ⟨u, v, rfl, rfl, rfl⟩ := flatMap_escape_cut hz hrun
        have hwithin : ∃ y, v.flatMap Json.escape = raw ++ y := by
          rcases List.append_eq_append_iff.1 hb with ⟨y, hy, -⟩ | ⟨y, rfl, hrest⟩
          · exact ⟨y, hy⟩
          · cases y with
            | nil => exact ⟨[], by rw [List.append_nil, List.append_nil]⟩
            | cons c y =>
              obtain ⟨rfl, -⟩ := List.cons_eq_cons.1 hrest
              exact ((spells_escape v).quote_unique hraw).elim
        obtain ⟨y, hy⟩ := hwithin
        obtain ⟨w', v', rfl, rfl, -⟩ := flatMap_escape_cut hy hraw.run
        obtain rfl := hraw.unique (spells_escape w')
        exact ⟨_, List.mem_cons_self .., ⟨u, v', List.append_assoc ..⟩, rfl⟩

theorem Layout.spelled_append (h : Layout strs t) (hrest : Spelled strs' rest) : Spelled (strs ++ strs') (t ++ rest) := by
  induction h generalizing strs' rest with
  | plain hplain => exact hrest.plain_append hplain
  | string s => exact hrest.string_append s
  | append _ _ ih ih' =>
    rw [List.append_assoc, List.append_assoc]
    exact ih (ih' hrest)

theorem Layout.spelled (h : Layout strs t) : Spelled strs t := by
  have hnil : Spelled [] [] := by
    have hraw : ∀ {raw b : Text}, [] = raw ++ b → raw = [] := fun heq => (List.append_eq_nil_iff.1 heq.symm).1
    refine ⟨fun a raw b w heq _ _ hback => ?_, fun raw b w heq _ hback => ?_⟩
    · rw [hraw (List.append_eq_nil_iff.1 heq.symm).2.symm] at hback
      cases hback
    · rw [hraw heq] at hback
      cases hback
  have hall := h.spelled_append hnil
  rwa [List.append_nil, List.append_nil] at hall

/-! ## Escapes broken off -/

/-- How many characters an escape may still take. -/
def EscapeState.rank : EscapeState → Nat
  | between => 0
  | escaped => 5
  | digits n => n + 1

/-- What may come next: an escape goes on, or a character breaks it off. -/
def EscapeState.Next (stop : Char) : EscapeState → Char → Prop
  | between, _ => True
  | escaped, c => (unescape c).isSome = true ∨ c = 'u' ∨ c = stop
  | digits _, c => (hexValue c).isSome = true ∨ c = stop

/-- Every escape of the text is complete or broken off by a character. -/
def Escapes (stop : Char) : EscapeState → Text → Prop
  | _, [] => True
  | st, c :: t => st.Next stop c ∧ Escapes stop (st.step c) t

variable {st : EscapeState} {stop : Char}

theorem escapes_append : Escapes stop st (a ++ b) ↔ Escapes stop st a ∧ Escapes stop (st.run a) b := by
  induction a generalizing st with
  | nil => exact ⟨fun h => ⟨trivial, h⟩, And.right⟩
  | cons c a ih =>
    show _ ∧ Escapes stop (st.step c) (a ++ b) ↔ (_ ∧ _) ∧ _
    rw [ih, and_assoc]
    rfl

theorem escapes_escape (c : Char) : Escapes stop between (Json.escape c) := by
  rcases escape_cases c with ⟨hc, -, -⟩ | ⟨x, hc, hx⟩ | ⟨h₁, h₂, hc, hd⟩
  · rw [hc]
    exact ⟨trivial, trivial⟩
  · rw [hc]
    exact ⟨trivial, .inl (by rw [hx]; rfl), trivial⟩
  · rw [hc]
    have hdigits := hexValue_of_readHex hd
    refine ⟨trivial, .inr (.inl rfl), .inl rfl, .inl rfl, .inl (hdigits h₁ (by simp)), ?_, trivial⟩
    rw [show ((((between.step '\\').step 'u').step '0').step '0').step h₁ = digits 0 from
      if_pos (hdigits h₁ (by simp))]
    exact .inl (hdigits h₂ (by simp))

theorem escapes_plain (h : ∀ c ∈ t, c ≠ '"' ∧ c ≠ '\\') : Escapes stop between t := by
  induction t with
  | nil => trivial
  | cons c t ih =>
    obtain ⟨hc, ht⟩ := List.forall_mem_cons.1 h
    refine ⟨trivial, ?_⟩
    rw [step_between hc.2]
    exact ih ht

theorem Layout.escapes (h : Layout strs t) : Escapes stop between t := by
  induction h with
  | plain hplain => exact escapes_plain hplain
  | string s =>
    have hquote : Escapes stop between ['"'] := ⟨trivial, trivial⟩
    have hinner : Escapes stop between (s.flatMap Json.escape) := by
      induction s with
      | nil => trivial
      | cons c s ih =>
        have hc : between.run (Json.escape c) = between := by
          have hspells := (Spells.nil.cons_escape c).run
          rwa [List.append_nil] at hspells
        rw [List.flatMap_cons, escapes_append, hc]
        exact ⟨escapes_escape c, ih⟩
    show Escapes stop between (['"'] ++ s.flatMap Json.escape ++ ['"'])
    have hopen : between.run ['"'] = between := rfl
    rw [escapes_append, escapes_append, run_append, hopen, (spells_escape s).run]
    exact ⟨⟨hquote, hinner⟩, hquote⟩
  | append h _ ih ih' =>
    rw [escapes_append, h.run]
    exact ⟨ih, ih'⟩

theorem rank_step_le (h : st.rank ≤ 5) (c : Char) : (st.step c).rank ≤ 5 := by
  cases st with
  | between =>
    show (if _ then _ else _ : EscapeState).rank ≤ 5
    split <;> decide
  | escaped =>
    show (if _ then _ else _ : EscapeState).rank ≤ 5
    split <;> decide
  | digits n =>
    cases n with
    | zero =>
      show (if _ then _ else if _ then _ else _ : EscapeState).rank ≤ 5
      split
      · decide
      · split <;> decide
    | succ n =>
      show (if _ then _ else if _ then _ else _ : EscapeState).rank ≤ 5
      split
      · exact Nat.le_trans (Nat.le_succ _) h
      · split <;> decide

theorem rank_run_le (h : st.rank ≤ 5) (t : Text) : (st.run t).rank ≤ 5 := by
  induction t generalizing st with
  | nil => exact h
  | cons c t ih => exact ih (rank_step_le h c)

/-- Without a backslash an escape ends. -/
theorem rank_step_lt (st : EscapeState) (hback : c ≠ '\\') : (st.step c).rank ≤ st.rank - 1 := by
  cases st with
  | between => rw [step_between hback]; exact Nat.le_refl _
  | escaped =>
    show (if _ then _ else _ : EscapeState).rank ≤ 4
    split <;> decide
  | digits n =>
    cases n with
    | zero =>
      show (if _ then _ else if c = '\\' then _ else _ : EscapeState).rank ≤ 0
      rw [if_neg hback]
      split <;> exact Nat.le_refl _
    | succ n =>
      show (if _ then _ else if c = '\\' then _ else _ : EscapeState).rank ≤ n + 1
      rw [if_neg hback]
      split
      · exact Nat.le_refl _
      · exact Nat.zero_le _

theorem rank_run_sub (st : EscapeState) (hback : '\\' ∉ t) : (st.run t).rank ≤ st.rank - t.length := by
  induction t generalizing st with
  | nil => exact Nat.le_refl _
  | cons c t ih =>
    have hc : c ≠ '\\' := fun h => hback (h ▸ List.mem_cons_self ..)
    have hstep := rank_step_lt st hc
    have hrun := ih (st.step c) fun h => hback (List.mem_cons_of_mem _ h)
    rw [List.length_cons]
    exact Nat.le_trans hrun (by omega)

theorem eq_between_of_rank (h : st.rank = 0) : st = between := by
  cases st with
  | between => rfl
  | escaped => cases h
  | digits n => cases h

theorem toNat_lt_of_hexValue (h : (hexValue c).isSome = true) : c.toNat < 128 := by
  unfold hexValue at h
  split at h
  · omega
  · split at h
    · omega
    · split at h
      · omega
      · cases h

theorem toNat_lt_of_unescape (h : (unescape c).isSome = true) : c.toNat < 128 := by
  unfold unescape at h
  split at h
  all_goals first
    | omega
    | cases h

/-- A long text without a backslash gets to the end of the escape in which it begins. -/
theorem run_of_long (hst : st.rank ≤ 5) (hstop : stop.toNat < 128) (hback : '\\' ∉ t) (h : Escapes stop st t)
    (hlong : 5 ≤ (Text.utf8 t).length) : st.run t = between := by
  by_contra hne
  have hascii : ∀ c ∈ t, Text.isAscii c = true := by
    clear hlong hst
    induction t generalizing st with
    | nil => exact fun _ hmem => nomatch hmem
    | cons c t ih =>
      have hback' : '\\' ∉ t := fun hmem => hback (List.mem_cons_of_mem _ hmem)
      refine List.forall_mem_cons.2 ⟨?_, ih hback' h.2 hne⟩
      have hnext := h.1
      cases st with
      | between =>
        have hrank := rank_run_sub between hback
        exact absurd (eq_between_of_rank (Nat.le_zero.1 (Nat.le_trans hrank (Nat.le_of_eq (Nat.zero_sub _))))) hne
      | escaped =>
        refine decide_eq_true ?_
        rcases hnext with hnext | rfl | rfl
        · exact toNat_lt_of_unescape hnext
        · decide
        · exact hstop
      | digits n =>
        refine decide_eq_true ?_
        rcases hnext with hnext | rfl
        · exact toNat_lt_of_hexValue hnext
        · exact hstop
  have hlen : (Text.utf8 t).length = t.length := by
    clear hlong h hne
    induction t with
    | nil => rfl
    | cons c t ih =>
      obtain ⟨hc, ht⟩ := List.forall_mem_cons.1 hascii
      rw [Text.utf8_cons_ascii hc, List.length_cons, List.length_cons,
        ih (fun hmem => hback (List.mem_cons_of_mem _ hmem)) ht]
  have hrank := rank_run_sub st hback
  exact hne (eq_between_of_rank (by omega))

/-! ## Reading the strings -/

/-- The strings of a text: outside a string everything up to a quote is skipped. -/
def strings : Text → Option (List Text)
  | [] => some []
  | '"' :: rest =>
    match _h : readChars rest with
    | none => none
    | some (s, rest) => (strings rest).map (s :: ·)
  | _ :: rest => strings rest
termination_by t => t.length
decreasing_by
  · exact Nat.lt_succ_of_lt (readChars_length _h)
  · exact Nat.lt_succ_self _

/-- A string of a text is spelled between two quotes. -/
theorem mem_strings (h : strings t = some found) (hs : s ∈ found) :
    ∃ a raw b, t = a ++ '"' :: (raw ++ '"' :: b) ∧ Spells raw s := by
  fun_induction strings t generalizing found with
  | case1 =>
    cases h
    cases hs
  | case2 rest hnone => cases h
  | case3 rest s' rest' hread ih =>
    obtain ⟨found', hfound, rfl⟩ := Option.map_eq_some_iff.1 h
    obtain ⟨raw', rfl, hraw'⟩ := spells_of_readChars hread
    rcases List.mem_cons.1 hs with rfl | hs
    · exact ⟨[], raw', rest', rfl, hraw'⟩
    · obtain ⟨a, raw, b, rfl, hraw⟩ := ih hfound hs
      exact ⟨'"' :: (raw' ++ '"' :: a), raw, b, by simp, hraw⟩
  | case4 c rest hquote ih =>
    obtain ⟨a, raw, b, rfl, hraw⟩ := ih h hs
    exact ⟨c :: a, raw, b, rfl, hraw⟩

theorem strings_plain (hc : c ≠ '"') (rest : Text) : strings (c :: rest) = strings rest := by
  rw [strings]
  exact hc

/-- The strings that a serializer wrote are read. -/
theorem Layout.strings_append (h : Layout strs t) (rest : Text) :
    strings (t ++ rest) = (strings rest).map (strs ++ ·) := by
  induction h generalizing rest with
  | @plain t hplain =>
    induction t with
    | nil => exact Option.map_id'.symm
    | cons c t ih =>
      obtain ⟨hc, ht⟩ := List.forall_mem_cons.1 hplain
      rw [List.cons_append, strings_plain hc.1, ih ht]
  | string s =>
    have hread : readChars (s.flatMap Json.escape ++ ['"'] ++ rest) = some (s, rest) := readString_string s rest
    show strings ('"' :: (s.flatMap Json.escape ++ ['"'] ++ rest)) = _
    rw [strings]
    split
    · next hnone =>
      rw [hread] at hnone
      cases hnone
    · next s' rest' hsome =>
      rw [hread] at hsome
      cases hsome
      rfl
  | append _ _ ih ih' =>
    rw [List.append_assoc, ih, ih', Option.map_map]
    congr 1
    funext found
    exact (List.append_assoc ..).symm

theorem Layout.strings_eq (h : Layout strs t) : strings t = some strs := by
  have hall := h.strings_append []
  rwa [List.append_nil, strings, Option.map_some, List.append_nil] at hall

end Zedspaces.Lib.Json
