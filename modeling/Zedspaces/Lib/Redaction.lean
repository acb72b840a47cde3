/-
Replacing what a search finds in a text by a mark. The text is read once from the left; where a match begins, the
mark is written and the match skipped. A mark has brackets, so a word without brackets that stands in the result
stood in the text (`infix_redact`): it cannot be put together from what a replacement left on both sides of its
mark. Hence a word that was replaced everywhere stays away whatever is replaced afterwards, and replacing it again
changes nothing.
-/
import Mathlib.Data.List.Infix

namespace Zedspaces.Lib

variable {α : Type*}

/-- What is written for a match: a body between two brackets. -/
structure Mark (α : Type*) where
  opening : α
  body : List α
  closing : α

namespace Mark

variable (mark : Mark α)

def text : List α := mark.opening :: (mark.body ++ [mark.closing])

/-- The word has no bracket of the mark. -/
def Free (s : List α) : Prop := mark.opening ∉ s ∧ mark.closing ∉ s

/-- The word has no bracket of the mark and does not stand between them. -/
structure Foreign (s : List α) : Prop where
  free : mark.Free s
  outside : ¬ s <:+: mark.body
  ne_nil : s ≠ []

end Mark

section

variable (find : List α → Nat) (mark : Mark α)

/-- The text with every match replaced by the mark. `find` is the length of the match at the beginning of a text, 0
if there is none; `skip` characters still belong to a match that was replaced. -/
def redact : Nat → List α → List α
  | _, [] => []
  | skip + 1, _ :: t => redact skip t
  | 0, c :: t => match find (c :: t) with
    | 0 => c :: redact 0 t
    | n + 1 => mark.text ++ redact n t

end

variable {find : List α → Nat} {mark : Mark α} {s t : List α} {c : α}

theorem redact_cons_of_zero (h : find (c :: t) = 0) : redact find mark 0 (c :: t) = c :: redact find mark 0 t := by
  rw [redact, h]

theorem redact_cons_of_succ {n : Nat} (h : find (c :: t) = n + 1) :
    redact find mark 0 (c :: t) = mark.text ++ redact find mark n t := by
  rw [redact, h]

/-- Nothing is found, nothing is changed. -/
theorem redact_eq_self (h : ∀ u, u <:+ t → find u = 0) : redact find mark 0 t = t := by
  induction t with
  | nil => rfl
  | cons c t ih =>
    rw [redact_cons_of_zero (h _ (List.suffix_refl _)), ih fun u hu => h u (hu.trans (List.suffix_cons c t))]

theorem Mark.Free.tail (h : mark.Free (c :: s)) : mark.Free s :=
  ⟨fun hm => h.1 (List.mem_cons_of_mem _ hm), fun hm => h.2 (List.mem_cons_of_mem _ hm)⟩

/-- A word without brackets at the beginning of the result is at the beginning of the text. -/
theorem prefix_redact (hfree : mark.Free s) (h : s <+: redact find mark 0 t) : s <+: t := by
  induction s generalizing t with
  | nil => exact List.nil_prefix
  | cons d s ih =>
    cases t with
    | nil => exact h
    | cons c t =>
      cases hfind : find (c :: t) with
      | zero =>
        rw [redact_cons_of_zero hfind] at h
        obtain ⟨rfl, hs⟩ := List.cons_prefix_cons.1 h
        exact List.cons_prefix_cons.2 ⟨rfl, ih hfree.tail hs⟩
      | succ n =>
        rw [redact_cons_of_succ hfind] at h
        obtain ⟨rfl, -⟩ := List.cons_prefix_cons.1 h
        exact absurd List.mem_cons_self hfree.1

theorem find_eq_zero_of_prefix (hfree : mark.Free s) (hne : s ≠ []) (h : s <+: redact find mark 0 t) : find t = 0 := by
  obtain ⟨d, s, rfl⟩ := List.exists_cons_of_ne_nil hne
  cases t with
  | nil => exact absurd (List.prefix_nil.1 h) hne
  | cons c t =>
    cases hfind : find (c :: t) with
    | zero => rfl
    | succ n =>
      rw [redact_cons_of_succ hfind] at h
      obtain ⟨rfl, -⟩ := List.cons_prefix_cons.1 h
      exact absurd List.mem_cons_self hfree.1

/-- A foreign word does not begin within a mark. -/
theorem Mark.Foreign.suffix_text (hs : mark.Foreign s) {u v : List α} (hu : u <:+ mark.text) (h : s <+: u ++ v) :
    u = [] := by
  by_contra hne
  have hclosing : ∀ x, ¬ x ++ [mark.closing] <+: s := by
    intro x hx
    exact hs.free.2 (hx.subset (List.mem_append_right _ List.mem_cons_self))
  -- `u` ends with the closing bracket, so the word ends before it
  have hlast : ∃ x, u = x ++ [mark.closing] ∧ (x = mark.opening :: mark.body ∨ x <:+ mark.body) := by
    rcases List.suffix_cons_iff.1 hu with rfl | hu
    · exact ⟨mark.opening :: mark.body, rfl, .inl rfl⟩
    · rcases List.suffix_concat_iff.1 hu with rfl | ⟨x, rfl, hx⟩
      · exact absurd rfl hne
      · exact ⟨x, rfl, .inr hx⟩
  obtain ⟨x, rfl, hx⟩ := hlast
  rw [List.append_assoc] at h
  have hsx : s <+: x := by
    rcases List.prefix_or_prefix_of_prefix h (List.prefix_append x ([mark.closing] ++ v)) with hsx | hxs
    · exact hsx
    · obtain ⟨s', rfl⟩ := hxs
      cases s' with
      | nil => rw [List.append_nil]
      | cons d s' =>
        rw [List.prefix_append_right_inj] at h
        obtain ⟨rfl, -⟩ := List.cons_prefix_cons.1 h
        exact absurd (List.mem_append_right _ List.mem_cons_self) hs.free.2
  rcases hx with rfl | hx
  · obtain ⟨d, s, rfl⟩ := List.exists_cons_of_ne_nil hs.ne_nil
    obtain ⟨rfl, -⟩ := List.cons_prefix_cons.1 hsx
    exact hs.free.1 List.mem_cons_self
  · exact hs.outside (hsx.isInfix.trans hx.isInfix)

/-- What the result holds from a foreign word on is the result of what the text holds from there on. -/
theorem suffix_redact (hs : mark.Foreign s) {skip : Nat} {v : List α} (h : s <+: v)
    (hv : v <:+ redact find mark skip t) : ∃ u, u <:+ t ∧ v = redact find mark 0 u := by
  induction t generalizing skip with
  | nil =>
    have hnil : v <:+ [] := by cases skip <;> exact hv
    rw [List.suffix_nil.1 hnil] at h
    exact absurd (List.prefix_nil.1 h) hs.ne_nil
  | cons c t ih =>
    have hlater : ∀ {skip}, v <:+ redact find mark skip t → ∃ u, u <:+ c :: t ∧ v = redact find mark 0 u := by
      intro skip hv
      obtain ⟨u, hu, heq⟩ := ih hv
      exact ⟨u, hu.trans (List.suffix_cons c t), heq⟩
    cases skip with
    | succ skip => exact hlater hv
    | zero =>
      cases hfind : find (c :: t) with
      | zero =>
        rw [redact_cons_of_zero hfind] at hv
        rcases List.suffix_cons_iff.1 hv with rfl | hv
        · exact ⟨c :: t, List.suffix_refl _, (redact_cons_of_zero hfind).symm⟩
        · exact hlater hv
      | succ n =>
        rw [redact_cons_of_succ hfind] at hv
        rcases List.suffix_or_suffix_of_suffix hv (List.suffix_append mark.text _) with hsuffix | hsuffix
        · exact hlater hsuffix
        · obtain ⟨u, rfl⟩ := hsuffix
          have hu : u <:+ mark.text := (List.suffix_append_inj_of_length_eq rfl).1 hv |>.1
          have hnil := hs.suffix_text hu h
          subst hnil
          exact hlater (List.suffix_refl _)

/-- Where a foreign word stands in the result, it stands in the text, and no match begins there. -/
theorem infix_redact (hs : mark.Foreign s) {skip : Nat} (h : s <:+: redact find mark skip t) :
    ∃ u, u <:+ t ∧ s <+: redact find mark 0 u ∧ find u = 0 := by
  obtain ⟨v, hprefix, hsuffix⟩ := List.infix_iff_prefix_suffix.1 h
  obtain ⟨u, hu, rfl⟩ := suffix_redact hs hprefix hsuffix
  exact ⟨u, hu, hprefix, find_eq_zero_of_prefix hs.free hs.ne_nil hprefix⟩

/-- Behind a word that stays the replacing goes on. -/
theorem redact_append (hfree : mark.Free s) {q : List α} (h : s <+: redact find mark 0 (s ++ q)) :
    redact find mark 0 (s ++ q) = s ++ redact find mark 0 q := by
  induction s with
  | nil => rfl
  | cons d s ih =>
    have hzero : find (d :: s ++ q) = 0 := find_eq_zero_of_prefix hfree (List.cons_ne_nil _ _) h
    rw [List.cons_append] at h hzero ⊢
    rw [redact_cons_of_zero hzero] at h ⊢
    rw [ih hfree.tail (List.cons_prefix_cons.1 h).2]
    rfl

/-- A character of a kind that the mark has too does not leave the text. -/
theorem exists_mem_redact {P : α → Prop} (hopening : P mark.opening) (h : ∃ c ∈ t, P c) :
    ∃ c ∈ redact find mark 0 t, P c := by
  induction t with
  | nil =>
    obtain ⟨c, hc, -⟩ := h
    cases hc
  | cons d t ih =>
    cases hfind : find (d :: t) with
    | zero =>
      rw [redact_cons_of_zero hfind]
      obtain ⟨c, hc, hP⟩ := h
      rcases List.mem_cons.1 hc with rfl | hc
      · exact ⟨c, List.mem_cons_self, hP⟩
      · obtain ⟨c', hc', hP'⟩ := ih ⟨c, hc, hP⟩
        exact ⟨c', List.mem_cons_of_mem _ hc', hP'⟩
    | succ n =>
      rw [redact_cons_of_succ hfind]
      exact ⟨mark.opening, List.mem_append_left _ List.mem_cons_self, hopening⟩

/-- A character that no match holds stays, and what comes before it is replaced on its own. -/
theorem redact_append_cons (hfind : ∀ t : List α, c ∉ t.take (find t)) (r rest : List α) {skip : Nat}
    (hskip : skip ≤ r.length) :
    ∃ r', redact find mark skip (r ++ c :: rest) = r' ++ c :: redact find mark 0 rest ∧
      (∀ d ∈ r', d ∈ r ∨ d ∈ mark.text) ∧ (skip < r.length → r' ≠ []) := by
  induction r generalizing skip with
  | nil =>
    obtain rfl : skip = 0 := Nat.le_zero.1 hskip
    refine ⟨[], ?_, by rintro _ ⟨⟩, fun h => absurd h (Nat.lt_irrefl _)⟩
    cases hn : find (c :: rest) with
    | zero => exact redact_cons_of_zero hn
    | succ n =>
      have hc := hfind (c :: rest)
      rw [hn, List.take_succ_cons] at hc
      exact absurd List.mem_cons_self hc
  | cons d r ih =>
    cases skip with
    | succ skip =>
      obtain ⟨r', heq, hmem, hne⟩ := ih (Nat.le_of_succ_le_succ hskip)
      refine ⟨r', heq, fun x hx => (hmem x hx).imp_left (List.mem_cons_of_mem _), fun h => hne (Nat.lt_of_succ_lt_succ h)⟩
    | zero =>
      cases hn : find (d :: r ++ c :: rest) with
      | zero =>
        obtain ⟨r', heq, hmem, -⟩ := ih (Nat.zero_le _)
        refine ⟨d :: r', ?_, ?_, fun _ => List.cons_ne_nil _ _⟩
        · rw [List.cons_append] at hn ⊢
          rw [redact_cons_of_zero hn, heq]
          rfl
        · intro x hx
          rcases List.mem_cons.1 hx with rfl | hx
          · exact .inl List.mem_cons_self
          · exact (hmem x hx).imp_left (List.mem_cons_of_mem _)
      | succ n =>
        have hlen : n ≤ r.length := by
          by_contra hlt
          refine hfind (d :: r ++ c :: rest) ?_
          rw [hn, List.take_append, List.mem_append]
          refine .inr ?_
          have hpos : n + 1 - (d :: r).length = n - r.length - 1 + 1 := by
            rw [List.length_cons]
            omega
          rw [hpos, List.take_succ_cons]
          exact List.mem_cons_self
        obtain ⟨r', heq, hmem, -⟩ := ih hlen
        refine ⟨mark.text ++ r', ?_, ?_, fun _ => by simp [Mark.text]⟩
        · rw [List.cons_append] at hn ⊢
          rw [redact_cons_of_succ hn, heq, List.append_assoc]
        · intro x hx
          rcases List.mem_append.1 hx with hx | hx
          · exact .inr hx
          · exact (hmem x hx).imp_left (List.mem_cons_of_mem _)

/-- A foreign word in the result is in the text. -/
theorem infix_of_infix_redact (hs : mark.Foreign s) (h : s <:+: redact find mark 0 t) : s <:+: t := by
  obtain ⟨u, hu, hprefix, -⟩ := infix_redact hs h
  exact (prefix_redact hs.free hprefix).isInfix.trans hu.isInfix

/-! ## Words -/

section

variable [BEq α]

/-- Finds the word. -/
def exactly (s t : List α) : Nat := if s.isPrefixOf t then s.length else 0

/-- The text with each of the words replaced, one after the other. -/
def redactWords (mark : Mark α) (words : List (List α)) (t : List α) : List α :=
  words.foldl (fun t s => redact (exactly s) mark 0 t) t

theorem infix_redactWords (hs : mark.Foreign s) {words : List (List α)} (h : s <:+: redactWords mark words t) :
    s <:+: t := by
  induction words generalizing t with
  | nil => exact h
  | cons w words ih => exact infix_of_infix_redact hs (ih h)

variable [LawfulBEq α]

theorem exactly_eq_zero (hne : s ≠ []) : exactly s t = 0 ↔ ¬ s <+: t := by
  unfold exactly
  split
  · next h => simp [hne, List.isPrefixOf_iff_prefix.1 h]
  · next h => simp [List.isPrefixOf_iff_prefix.not.1 h]

/-- A foreign word is gone once it is replaced. -/
theorem not_infix_redact_exactly (hs : mark.Foreign s) : ¬ s <:+: redact (exactly s) mark 0 t := by
  intro h
  obtain ⟨u, -, hprefix, hzero⟩ := infix_redact hs h
  exact (exactly_eq_zero hs.ne_nil).1 hzero (prefix_redact hs.free hprefix)

/-- A word that is not in the text is not replaced. -/
theorem redact_exactly_eq_self (hne : s ≠ []) (h : ¬ s <:+: t) : redact (exactly s) mark 0 t = t := by
  refine redact_eq_self fun u hu => (exactly_eq_zero hne).2 fun hs => ?_
  exact h (hs.isInfix.trans hu.isInfix)

/-- None of the words is in the result, in whatever order they were replaced. -/
theorem not_infix_redactWords {words : List (List α)} (h : ∀ s ∈ words, mark.Foreign s) (hs : s ∈ words) :
    ¬ s <:+: redactWords mark words t := by
  induction words generalizing t with
  | nil => cases hs
  | cons w words ih =>
    obtain ⟨hw, hwords⟩ := List.forall_mem_cons.1 h
    rcases List.mem_cons.1 hs with rfl | hs
    · exact fun hinfix => not_infix_redact_exactly hw (infix_redactWords hw hinfix)
    · exact ih hwords hs

theorem redactWords_eq_self {words : List (List α)} (hne : ∀ s ∈ words, s ≠ []) (h : ∀ s ∈ words, ¬ s <:+: t) :
    redactWords mark words t = t := by
  induction words with
  | nil => rfl
  | cons w words ih =>
    obtain ⟨hw, hwords⟩ := List.forall_mem_cons.1 h
    obtain ⟨hwne, hwordsne⟩ := List.forall_mem_cons.1 hne
    show redactWords mark words (redact (exactly w) mark 0 t) = t
    rw [redact_exactly_eq_self hwne hw]
    exact ih hwordsne hwords

end

end Zedspaces.Lib
