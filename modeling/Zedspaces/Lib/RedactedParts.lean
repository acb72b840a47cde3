/-
What stands in a text after matches have been replaced by a mark. A word that cannot overlap with the mark (`Apart`)
stood in the text already, in one piece, and no match begins there (`redacts_of_apart`). What comes before it in the
text and what the replacing has made of that take an automaton to the same state, if every mark and every match takes it
to one and the same (`Redacts.state`).
-/
import Zedspaces.Lib.Redaction

namespace Zedspaces.Lib

variable {α : Type*} {find : List α → Nat} {mark : Mark α} {s t a b r written rest : List α} {c : α}

/-- The word and the mark do not overlap, wherever they stand: it does not begin within a mark, nor a mark within it. -/
structure Mark.Apart (mark : Mark α) (s : List α) : Prop where
  ne_nil : s ≠ []
  begins : ∀ u v, mark.text = u ++ v → v ≠ [] → ¬ v <+: s ∧ ¬ s <+: v
  ends : ∀ u v, s = u ++ v → v ≠ [] → ¬ v <+: mark.text ∧ ¬ mark.text <+: v

/-- A word without brackets that does not stand between them. -/
theorem Mark.Foreign.apart (h : mark.Foreign s) : mark.Apart s where
  ne_nil := h.ne_nil
  begins u v htext hne := by
    have hsuffix : v <:+ mark.text := ⟨u, htext.symm⟩
    refine ⟨fun hv => h.free.2 (hv.subset ?_), fun hs => hne (h.suffix_text (v := []) hsuffix (by rwa [List.append_nil]))⟩
    have hlast : v.getLast? = some mark.closing := by
      have htextLast : mark.text.getLast? = some mark.closing := List.getLast?_concat (l := mark.opening :: mark.body)
      rwa [htext, List.getLast?_append_of_ne_nil u hne] at htextLast
    exact List.mem_of_getLast? hlast
  ends u v hs hne := by
    have hmem : mark.opening ∈ v → False := fun hv => h.free.1 (hs ▸ List.mem_append_right u hv)
    refine ⟨fun hv => ?_, fun hv => hmem (hv.subset (List.mem_cons_self ..))⟩
    obtain ⟨c, v, rfl⟩ := List.exists_cons_of_ne_nil hne
    obtain ⟨rfl, -⟩ := List.cons_prefix_cons.1 hv
    exact hmem (List.mem_cons_self ..)

theorem redact_skip (n : Nat) (t : List α) : redact find mark n t = redact find mark 0 (t.drop n) := by
  induction t generalizing n with
  | nil => cases n <;> rfl
  | cons c t ih =>
    cases n with
    | zero => rfl
    | succ n => exact ih n

/-- A match is replaced, and the replacing goes on behind it. -/
theorem redact_append_of_find {m : List α} (hne : m ≠ []) (h : find (m ++ t) = m.length) :
    redact find mark 0 (m ++ t) = mark.text ++ redact find mark 0 t := by
  obtain ⟨c, m, rfl⟩ := List.exists_cons_of_ne_nil hne
  have hfind : find (c :: (m ++ t)) = m.length + 1 := h
  rw [List.cons_append, redact_cons_of_succ hfind, redact_skip, List.drop_left]

/-- The replacing has written a part and has the rest still to read. -/
inductive Redacts (find : List α → Nat) (mark : Mark α) : List α → List α → List α → Prop
  | refl (t : List α) : Redacts find mark t [] t
  | keep {c : α} {t written rest : List α} : find (c :: t) = 0 → Redacts find mark t written rest →
      Redacts find mark (c :: t) (c :: written) rest
  | replace {m t written rest : List α} : m ≠ [] → find (m ++ t) = m.length → Redacts find mark t written rest →
      Redacts find mark (m ++ t) (mark.text ++ written) rest

theorem Redacts.suffix (h : Redacts find mark t written rest) : rest <:+ t := by
  induction h with
  | refl => exact List.suffix_refl _
  | keep _ _ ih => exact ih.trans (List.suffix_cons _ _)
  | replace _ _ _ ih => exact ih.trans (List.suffix_append _ _)

/-- A text begins with a character that stays or with a match. -/
theorem redact_cases (mark : Mark α) (hle : ∀ t, find t ≤ t.length) (hne : t ≠ []) :
    (∃ c u, t = c :: u ∧ find t = 0 ∧ redact find mark 0 t = c :: redact find mark 0 u) ∨
      ∃ m u, t = m ++ u ∧ m ≠ [] ∧ find t = m.length ∧ redact find mark 0 t = mark.text ++ redact find mark 0 u := by
  obtain ⟨c, u, rfl⟩ := List.exists_cons_of_ne_nil hne
  cases hfind : find (c :: u) with
  | zero => exact .inl ⟨c, u, rfl, rfl, redact_cons_of_zero hfind⟩
  | succ n =>
    have hlen : ((c :: u).take (n + 1)).length = n + 1 := by
      rw [List.length_take, ← hfind]
      exact Nat.min_eq_left (hle _)
    have htake : (c :: u).take (n + 1) ++ (c :: u).drop (n + 1) = c :: u := List.take_append_drop _ _
    refine .inr ⟨(c :: u).take (n + 1), (c :: u).drop (n + 1), htake.symm, ?_, hlen.symm, ?_⟩
    · intro hnil
      rw [hnil] at hlen
      cases hlen
    · rw [redact_cons_of_succ hfind, redact_skip]
      rfl

/-- A word that is apart from the mark begins in the result where the replacing was between two steps. -/
theorem redacts_begin (hle : ∀ t, find t ≤ t.length) (hs : mark.Apart s) (h : redact find mark 0 t = a ++ (s ++ b)) :
    ∃ rest, Redacts find mark t a rest ∧ redact find mark 0 rest = s ++ b := by
  induction hn : t.length using Nat.strongRecOn generalizing t a with
  | ind n ih =>
    cases a with
    | nil => exact ⟨t, .refl t, h⟩
    | cons d a =>
      have hne : t ≠ [] := by
        rintro rfl
        cases h
      rcases redact_cases mark hle hne with ⟨c, u, rfl, hfind, hredact⟩ | ⟨m, u, rfl, hm, hfind, hredact⟩
      · rw [hredact] at h
        obtain ⟨rfl, htail⟩ := List.cons_eq_cons.1 h
        obtain ⟨rest, hrest, hbegin⟩ := ih u.length (by rw [← hn]; exact Nat.lt_succ_self _) htail rfl
        exact ⟨rest, .keep hfind hrest, hbegin⟩
      · rw [hredact] at h
        rcases List.append_eq_append_iff.1 h with ⟨a', ha, hrest⟩ | ⟨v, hv, hrest⟩
        · have hlt : u.length < n := by
            rw [← hn, List.length_append]
            have hpos := List.length_pos_iff.2 hm
            omega
          obtain ⟨rest, hsplit, hbegin⟩ := ih u.length hlt hrest rfl
          rw [ha]
          exact ⟨rest, .replace hm hfind hsplit, hbegin⟩
        · -- the word would begin within the mark
          cases v with
          | nil =>
            rw [List.append_nil] at hv
            refine ⟨u, ?_, hrest.symm⟩
            rw [← hv, ← List.append_nil mark.text]
            exact .replace hm hfind (.refl u)
          | cons x v =>
            obtain ⟨hnot, hnot'⟩ := hs.begins (d :: a) (x :: v) hv (List.cons_ne_nil _ _)
            rcases List.prefix_or_prefix_of_prefix ⟨_, hrest⟩ (List.prefix_append (x :: v) _) with hp | hp
            · exact absurd hp hnot'
            · exact absurd hp hnot

/-- A word that no mark begins in, at the beginning of the result, is at the beginning of the text. -/
theorem redact_eq_append (hle : ∀ t, find t ≤ t.length)
    (hs : ∀ u v, s = u ++ v → v ≠ [] → ¬ v <+: mark.text ∧ ¬ mark.text <+: v) (h : redact find mark 0 t = s ++ b) :
    ∃ r, t = s ++ r ∧ redact find mark 0 r = b ∧ (s ≠ [] → find t = 0) := by
  induction s generalizing t with
  | nil => exact ⟨t, rfl, h, fun hne => absurd rfl hne⟩
  | cons d s ih =>
    have hne : t ≠ [] := by
      rintro rfl
      cases h
    rcases redact_cases mark hle hne with ⟨c, u, rfl, hfind, hredact⟩ | ⟨m, u, rfl, hm, hfind, hredact⟩
    · rw [hredact] at h
      obtain ⟨rfl, htail⟩ := List.cons_eq_cons.1 h
      obtain ⟨r, rfl, hr, -⟩ := ih (fun u v hv => hs (c :: u) v (congrArg (c :: ·) hv)) htail
      exact ⟨r, rfl, hr, fun _ => hfind⟩
    · obtain ⟨hnot, hnot'⟩ := hs [] (d :: s) rfl (List.cons_ne_nil _ _)
      rw [hredact] at h
      rcases List.prefix_or_prefix_of_prefix (List.prefix_append mark.text _) ⟨_, h.symm⟩ with hp | hp
      · exact absurd hp hnot'
      · exact absurd hp hnot

/-- Where a word that is apart from the mark stands in the result, it stands in the text, and no match begins there. -/
theorem redacts_of_apart (hle : ∀ t, find t ≤ t.length) (hs : mark.Apart s)
    (h : redact find mark 0 t = a ++ (s ++ b)) : ∃ r, Redacts find mark t a (s ++ r) ∧ find (s ++ r) = 0 := by
  obtain ⟨rest, hrest, hbegin⟩ := redacts_begin hle hs h
  obtain ⟨r, rfl, -, hfind⟩ := redact_eq_append hle hs.ends hbegin
  exact ⟨r, hrest, hfind hs.ne_nil⟩

theorem infix_of_apart (hle : ∀ t, find t ≤ t.length) (hs : mark.Apart s) (h : s <:+: redact find mark 0 t) :
    s <:+: t := by
  obtain ⟨a, b, h⟩ := h
  rw [List.append_assoc] at h
  obtain ⟨r, hr, -⟩ := redacts_of_apart hle hs h.symm
  exact (List.prefix_append s r).isInfix.trans hr.suffix.isInfix

/-! ## Automata -/

/-- An automaton that every mark and every match takes to one state does not see what was replaced. -/
theorem Redacts.state {σ : Type*} {step : σ → α → σ} {even : σ} (st : σ) (hmark : ∀ st, mark.text.foldl step st = even)
    (hends : ∀ a m r, t = a ++ (m ++ r) → m ≠ [] → find (m ++ r) = m.length → r ≠ [] → (a ++ m).foldl step st = even)
    (h : Redacts find mark t written rest) (hne : rest ≠ []) :
    ∃ a, t = a ++ rest ∧ written.foldl step st = a.foldl step st := by
  induction h generalizing st with
  | refl t => exact ⟨[], rfl, rfl⟩
  | @keep c t written rest hfind _ ih =>
    obtain ⟨a, rfl, hstate⟩ := ih (step st c)
      (fun a m r heq hm hfind hr => hends (c :: a) m r (congrArg (c :: ·) heq) hm hfind hr) hne
    exact ⟨c :: a, rfl, hstate⟩
  | @replace m t written rest hm hfind hrest ih =>
    obtain ⟨a, rfl, hstate⟩ := ih (m.foldl step st) (fun a m' r heq hm' hfind' hr => by
      have hend := hends (m ++ a) m' r (by rw [heq, List.append_assoc]) hm' hfind' hr
      rwa [List.append_assoc, List.foldl_append] at hend) hne
    have hnil : a ++ rest ≠ [] := fun h => hne (List.append_eq_nil_iff.1 h).2
    have hend : m.foldl step st = even := hends [] m (a ++ rest) rfl hm hfind hnil
    refine ⟨m ++ a, (List.append_assoc ..).symm, ?_⟩
    rw [List.foldl_append, List.foldl_append, hmark, ← hend, hstate]

/-! ## Words -/

section

variable [BEq α] [LawfulBEq α] {words : List (List α)}

theorem exactly_le (s t : List α) : exactly s t ≤ t.length := by
  unfold exactly
  split
  · next h => exact (List.isPrefixOf_iff_prefix.1 h).length_le
  · exact Nat.zero_le _

theorem infix_redactWords_of_apart (hs : mark.Apart s) (h : s <:+: redactWords mark words t) : s <:+: t := by
  induction words generalizing t with
  | nil => exact h
  | cons w words ih => exact infix_of_apart (exactly_le w) hs (ih h)

/-- None of the words is in the result. -/
theorem not_infix_redactWords_of_apart (h : ∀ s ∈ words, mark.Apart s) (hs : s ∈ words) :
    ¬ s <:+: redactWords mark words t := by
  induction words generalizing t with
  | nil => cases hs
  | cons w words ih =>
    obtain ⟨hw, hwords⟩ := List.forall_mem_cons.1 h
    rcases List.mem_cons.1 hs with rfl | hs
    · intro hinfix
      obtain ⟨a, b, heq⟩ : s <:+: redact (exactly s) mark 0 t := infix_redactWords_of_apart hw hinfix
      rw [List.append_assoc] at heq
      obtain ⟨r, -, hzero⟩ := redacts_of_apart (exactly_le s) hw heq.symm
      exact (exactly_eq_zero hw.ne_nil).1 hzero (List.prefix_append s r)
    · exact ih hwords hs

end

end Zedspaces.Lib
