/-
The fields of a text: what stands between separators, without the blanks around it, when anything does. Fields that are
joined with a separator and a blank are read back as they were (`fields_join`).
-/
import Mathlib.Data.List.DropRight
import Zedspaces.Lib.Text

namespace Zedspaces.Lib.Text

variable {p q : Char → Bool} {sep blank c : Char} {t u : Text}

/-- The text without the characters of a kind at either end. -/
def trimBy (p : Char → Bool) (t : Text) : Text := ((t.dropWhile p).reverse.dropWhile p).reverse

/-- The non-empty fields between separators. -/
def fields (sep : Char) (p : Char → Bool) (t : Text) : List Text := ((t.splitOn sep).map (trimBy p)).filter (· ≠ [])

theorem trim_eq_trimBy (t : Text) : trim t = trimBy isWhitespace t := rfl

theorem trimBy_infix (p : Char → Bool) (t : Text) : trimBy p t <:+: t := by
  have hleft : t.dropWhile p <:+ t := List.dropWhile_suffix p
  have hright : ((t.dropWhile p).reverse.dropWhile p).reverse <+: t.dropWhile p := by
    rw [← List.reverse_suffix, List.reverse_reverse]
    exact List.dropWhile_suffix p
  exact hright.isInfix.trans hleft.isInfix

theorem trimBy_congr (h : ∀ c ∈ t, p c = q c) : trimBy p t = trimBy q t := by
  have hdrop : ∀ u : Text, (∀ c ∈ u, c ∈ t) → u.dropWhile p = u.dropWhile q := by
    intro u hu
    induction u with
    | nil => rfl
    | cons c u ih =>
      rw [List.dropWhile_cons, List.dropWhile_cons, h c (hu c (List.mem_cons_self ..)),
        ih fun d hd => hu d (List.mem_cons_of_mem _ hd)]
  have hmem : ∀ c ∈ (t.dropWhile q).reverse, c ∈ t := fun c hc =>
    (List.dropWhile_suffix q).subset (List.mem_reverse.1 hc)
  rw [trimBy, trimBy, hdrop t fun _ hc => hc, hdrop _ hmem]

theorem trimBy_cons_of_pos (h : p c = true) : trimBy p (c :: t) = trimBy p t := by
  rw [trimBy, List.dropWhile_cons_of_pos h]; rfl

/-- Nothing is left to trim of a trimmed text. -/
theorem trimBy_trimBy (p : Char → Bool) (t : Text) : trimBy p (trimBy p t) = trimBy p t := by
  have hidem : ∀ u : Text, (u.dropWhile p).dropWhile p = u.dropWhile p := fun u => List.dropWhile_idempotent ..
  generalize hu : t.dropWhile p = u
  have hfixed : u.dropWhile p = u := by rw [← hu, hidem]
  have htrim : trimBy p t = (u.reverse.dropWhile p).reverse := by rw [trimBy, hu]
  have hleft : ((u.reverse.dropWhile p).reverse).dropWhile p = (u.reverse.dropWhile p).reverse := by
    have hprefix : (u.reverse.dropWhile p).reverse <+: u := by
      rw [← List.reverse_suffix, List.reverse_reverse]
      exact List.dropWhile_suffix p
    obtain ⟨tail, htail⟩ := hprefix
    cases hv : (u.reverse.dropWhile p).reverse with
    | nil => rfl
    | cons c v =>
      rw [hv] at htail
      have hc : ¬ p c = true := by
        intro hp
        rw [← htail, List.cons_append, List.dropWhile_cons_of_pos hp] at hfixed
        have hlength := congrArg List.length hfixed
        have hle := (List.dropWhile_suffix (l := v ++ tail) p).length_le
        rw [List.length_cons] at hlength
        omega
      exact List.dropWhile_cons_of_neg hc
  rw [htrim, trimBy, hleft, List.reverse_reverse, hidem]

/-- A piece between separators. -/
theorem splitOn_mem (h : u ∈ t.splitOn sep) : sep ∉ u ∧ u <:+: t := by
  induction hn : t.length using Nat.strong_induction_on generalizing t with
  | _ n ih =>
    by_cases hmem : sep ∈ t
    · obtain ⟨a, b, rfl, ha⟩ := List.eq_append_cons_of_mem hmem
      rw [List.splitOn_append_cons_self_of_not_mem ha] at h
      rcases List.mem_cons.1 h with rfl | h
      · exact ⟨ha, (List.prefix_append _ _).isInfix⟩
      · have hlength : b.length < n := by
          rw [← hn, List.length_append, List.length_cons]
          omega
        obtain ⟨hu, hin⟩ := ih b.length hlength h rfl
        exact ⟨hu, hin.trans ((List.suffix_cons sep b).trans (List.suffix_append a _)).isInfix⟩
    · rw [List.splitOn_eq_singleton hmem, List.mem_singleton] at h
      subst h
      exact ⟨hmem, List.infix_rfl⟩

/-- A field is trimmed, not empty, and holds no separator. -/
theorem fields_mem (h : u ∈ fields sep p t) : trimBy p u = u ∧ u ≠ [] ∧ sep ∉ u ∧ u <:+: t := by
  obtain ⟨hmem, hne⟩ := List.mem_filter.1 h
  obtain ⟨piece, hpiece, rfl⟩ := List.mem_map.1 hmem
  obtain ⟨hsep, hin⟩ := splitOn_mem hpiece
  have htrim := trimBy_infix p piece
  exact ⟨trimBy_trimBy p piece, by simpa using hne, fun h => hsep (htrim.subset h), htrim.trans hin⟩

theorem fields_nil : fields sep p [] = [] := rfl

/-- Joining with a separator and a blank is joining with the separator the texts that have the blank in front. -/
theorem intercalate_blank (t : Text) (ts : List Text) :
    [sep, blank].intercalate (t :: ts) = [sep].intercalate (t :: ts.map (blank :: ·)) := by
  induction ts generalizing t with
  | nil => rfl
  | cons u ts ih =>
    rw [List.intercalate_cons_cons, ih, List.map_cons, List.intercalate_cons_cons]
    rcases ts with _ | ⟨v, ts⟩
    · simp
    · simp [List.intercalate_cons_cons]

/-- Joined fields are read back. -/
theorem fields_join (hblank : p blank = true) (hne : blank ≠ sep) {ts : List Text}
    (h : ∀ t ∈ ts, trimBy p t = t ∧ t ≠ [] ∧ sep ∉ t) : fields sep p ([sep, blank].intercalate ts) = ts := by
  cases ts with
  | nil => rfl
  | cons t ts =>
    obtain ⟨⟨htrim, hnil, hsep⟩, hts⟩ := List.forall_mem_cons.1 h
    have hpieces : ∀ piece ∈ t :: ts.map (blank :: ·), sep ∉ piece := by
      refine List.forall_mem_cons.2 ⟨hsep, fun piece hpiece => ?_⟩
      obtain ⟨u, hu, rfl⟩ := List.mem_map.1 hpiece
      exact List.not_mem_cons_of_ne_of_not_mem (Ne.symm hne) (hts u hu).2.2
    have htrimmed : (ts.map (blank :: ·)).map (trimBy p) = ts := by
      rw [List.map_map]
      refine (List.map_congr_left fun u hu => ?_).trans (List.map_id ts)
      rw [Function.comp_apply, trimBy_cons_of_pos hblank, (hts u hu).1]
      rfl
    rw [fields, intercalate_blank, List.splitOn_intercalate sep hpieces (List.cons_ne_nil _ _), List.map_cons, htrim,
      htrimmed]
    exact List.filter_eq_self.2 fun u hu => decide_eq_true (h u hu).2.1

end Zedspaces.Lib.Text
