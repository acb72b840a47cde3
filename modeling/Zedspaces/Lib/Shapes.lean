/-
Shapes: sequences of character classes, each a fixed number of times or at least so often. `matchLen` is the length a
backtracking search finds at the beginning of a text, the earlier parts as long as they can be. It finds a match
exactly if a word of the shape stands there (`matchLen_sound`, `matchLen_complete`).
-/
import Mathlib.Algebra.GroupWithZero.Nat
import Mathlib.Data.List.Infix
import Mathlib.Data.List.TakeWhile

namespace Zedspaces.Lib

variable {α : Type*}

/-- A part of a shape: `min` characters of a class, or as many as there are but no fewer. -/
structure Piece (α : Type*) where
  cls : α → Bool
  min : Nat
  many : Bool

/-- A word of the shape. -/
def Matches : List (Piece α) → List α → Prop
  | [], w => w = []
  | p :: ps, w => ∃ a b, w = a ++ b ∧ (∀ c ∈ a, p.cls c = true) ∧ p.min ≤ a.length ∧
      (p.many = false → a.length = p.min) ∧ Matches ps b

/-- The length of the match of a shape at the beginning of a text, the earlier parts as long as they can be. -/
def matchLen : List (Piece α) → List α → Option Nat
  | [], _ => some 0
  | p :: ps, t =>
    let run := (t.takeWhile p.cls).length
    let most := if p.many then run else min run p.min
    (List.range (most + 1 - p.min)).findSome? fun k => (matchLen ps (t.drop (most - k))).map (most - k + ·)

/-- The length of the match, 0 if there is none. -/
def shapeFind (shape : List (Piece α)) (t : List α) : Nat := (matchLen shape t).getD 0

variable {p : Piece α} {shape shape' : List (Piece α)} {t w : List α} {n : Nat} {P : α → Prop}

theorem matchLen_sound (h : matchLen shape t = some n) : ∃ w, w <+: t ∧ w.length = n ∧ Matches shape w := by
  induction shape generalizing t n with
  | nil =>
    cases h
    exact ⟨[], List.nil_prefix, rfl, rfl⟩
  | cons p shape ih =>
    unfold matchLen at h
    dsimp only at h
    obtain ⟨k, hk, h⟩ := List.exists_of_findSome?_eq_some h
    obtain ⟨m, hm, rfl⟩ := Option.map_eq_some_iff.1 h
    rw [List.mem_range] at hk
    set run := (t.takeWhile p.cls).length with hrun
    have hmost : (if p.many then run else min run p.min) ≤ run := by
      split
      · exact Nat.le_refl _
      · exact Nat.min_le_left _ _
    set l := (if p.many then run else min run p.min) - k with hl
    have hle : l ≤ run := by omega
    obtain ⟨w, ⟨rest, hrest⟩, rfl, hw⟩ := ih hm
    have htake : (t.take l) <+: t.takeWhile p.cls := by
      refine List.prefix_of_prefix_length_le (List.take_prefix _ _) (List.takeWhile_prefix _) ?_
      rw [List.length_take]
      omega
    have hlen : (t.take l).length = l := by
      have := (List.takeWhile_prefix p.cls (l := t)).length_le
      rw [List.length_take]
      omega
    refine ⟨t.take l ++ w, ⟨rest, ?_⟩, by rw [List.length_append, hlen], t.take l, w, rfl, ?_, ?_, ?_, hw⟩
    · rw [List.append_assoc, hrest, List.take_append_drop]
    · exact fun c hc => List.mem_takeWhile_imp (htake.subset hc)
    · rw [hlen]
      omega
    · intro hmany
      rw [hmany] at hl hk
      rw [hlen]
      have := Nat.min_le_right run p.min
      simp only [Bool.false_eq_true, if_false] at hl hk
      omega

theorem matchLen_complete (h : Matches shape w) (hw : w <+: t) : (matchLen shape t).isSome = true := by
  induction shape generalizing t w with
  | nil => rfl
  | cons p shape ih =>
    obtain ⟨a, b, rfl, hcls, hmin, hfixed, hb⟩ := h
    obtain ⟨rest, rfl⟩ := hw
    have hrun : a.length ≤ ((a ++ b ++ rest).takeWhile p.cls).length := by
      rw [List.append_assoc, List.takeWhile_append_of_pos hcls, List.length_append]
      omega
    unfold matchLen
    dsimp only
    set run := ((a ++ b ++ rest).takeWhile p.cls).length
    set most := (if p.many then run else min run p.min) with hmost
    have hle : a.length ≤ most := by
      rw [hmost]
      split
      · exact hrun
      · rename_i hmany
        have := hfixed (Bool.eq_false_iff.2 hmany)
        omega
    rw [List.findSome?_isSome_iff]
    refine ⟨most - a.length, List.mem_range.2 (by omega), ?_⟩
    have hk : most - (most - a.length) = a.length := by omega
    rw [hk, Option.isSome_map, List.append_assoc, List.drop_left]
    exact ih hb (List.prefix_append b rest)

/-! ## Words of a shape -/

theorem matches_append : Matches (shape ++ shape') w ↔ ∃ a b, w = a ++ b ∧ Matches shape a ∧ Matches shape' b := by
  induction shape generalizing w with
  | nil =>
    constructor
    · exact fun h => ⟨[], w, rfl, rfl, h⟩
    · rintro ⟨a, b, rfl, rfl, h⟩
      exact h
  | cons p shape ih =>
    constructor
    · rintro ⟨a, b, rfl, hcls, hmin, hfixed, hb⟩
      obtain ⟨b, b', rfl, hb, hb'⟩ := ih.1 hb
      exact ⟨a ++ b, b', (List.append_assoc ..).symm, ⟨a, b, rfl, hcls, hmin, hfixed, hb⟩, hb'⟩
    · rintro ⟨_, b', rfl, ⟨a, b, rfl, hcls, hmin, hfixed, hb⟩, hb'⟩
      exact ⟨a, b ++ b', List.append_assoc .., hcls, hmin, hfixed, ih.2 ⟨b, b', rfl, hb, hb'⟩⟩

/-- The characters of a word are of the shape's classes. -/
theorem Matches.forall_mem (h : Matches shape w) (hP : ∀ p ∈ shape, ∀ c, p.cls c = true → P c) : ∀ c ∈ w, P c := by
  induction shape generalizing w with
  | nil =>
    rw [show w = [] from h]
    rintro _ ⟨⟩
  | cons p shape ih =>
    obtain ⟨a, b, rfl, hcls, -, -, hb⟩ := h
    obtain ⟨hp, hshape⟩ := List.forall_mem_cons.1 hP
    intro c hc
    rcases List.mem_append.1 hc with hc | hc
    · exact hp c (hcls c hc)
    · exact ih hb hshape c hc

/-- A part that is needed stands in every word. -/
theorem Matches.exists_mem (h : Matches shape w) (hp : p ∈ shape) (hmin : 0 < p.min) : ∃ c ∈ w, p.cls c = true := by
  induction shape generalizing w with
  | nil => cases hp
  | cons q shape ih =>
    obtain ⟨a, b, rfl, hcls, hle, -, hb⟩ := h
    rcases List.mem_cons.1 hp with rfl | hp
    · obtain ⟨c, a, rfl⟩ := List.exists_cons_of_ne_nil (List.ne_nil_of_length_pos (Nat.lt_of_lt_of_le hmin hle))
      exact ⟨c, by simp, hcls c (by simp)⟩
    · obtain ⟨c, hc, hcls⟩ := ih hb hp
      exact ⟨c, List.mem_append_right _ hc, hcls⟩

/-- The words of a shape without repetition have one length. -/
theorem Matches.length_eq (h : Matches shape w) (hfixed : ∀ p ∈ shape, p.many = false) :
    w.length = (shape.map Piece.min).sum := by
  induction shape generalizing w with
  | nil =>
    rw [show w = [] from h]
    rfl
  | cons p shape ih =>
    obtain ⟨a, b, rfl, -, -, hlen, hb⟩ := h
    obtain ⟨hp, hshape⟩ := List.forall_mem_cons.1 hfixed
    rw [List.length_append, hlen hp, ih hb hshape]
    rfl

theorem Matches.sum_min_le (h : Matches shape w) : (shape.map Piece.min).sum ≤ w.length := by
  induction shape generalizing w with
  | nil => exact Nat.zero_le _
  | cons p shape ih =>
    obtain ⟨a, b, rfl, -, hmin, -, hb⟩ := h
    rw [List.length_append, List.map_cons, List.sum_cons]
    exact Nat.add_le_add hmin (ih hb)

theorem shapeFind_le (shape : List (Piece α)) (t : List α) : shapeFind shape t ≤ t.length := by
  unfold shapeFind
  cases h : matchLen shape t with
  | none => exact Nat.zero_le _
  | some n =>
    obtain ⟨w, hw, hlen, -⟩ := matchLen_sound h
    show n ≤ t.length
    rw [← hlen]
    exact hw.length_le

/-- Where a match is found, it is that of the search. -/
theorem matchLen_of_shapeFind (h : shapeFind shape t = n) (hn : n ≠ 0) : matchLen shape t = some n := by
  unfold shapeFind at h
  cases hm : matchLen shape t with
  | none =>
    rw [hm] at h
    exact absurd h.symm hn
  | some m =>
    rw [hm] at h
    exact congrArg some h

/-- The text does not begin with a character of the shape's first part. -/
def barred : List (Piece α) → List α → Bool
  | p :: _, c :: _ => decide (0 < p.min) && !p.cls c
  | _, _ => false

theorem shapeFind_eq_zero_of_barred (h : barred shape t = true) : shapeFind shape t = 0 := by
  unfold barred at h
  split at h
  · next p shape c t =>
    rw [Bool.and_eq_true, decide_eq_true_eq, Bool.not_eq_true'] at h
    obtain ⟨hmin, hcls⟩ := h
    by_contra hne
    obtain ⟨w, hw, -, a, b, rfl, hall, hle, -⟩ := matchLen_sound (matchLen_of_shapeFind rfl hne)
    obtain ⟨d, a, rfl⟩ := List.exists_cons_of_ne_nil (List.ne_nil_of_length_pos (Nat.lt_of_lt_of_le hmin hle))
    obtain ⟨rfl, -⟩ := List.cons_prefix_cons.1 hw
    rw [hall d (List.mem_cons_self ..)] at hcls
    cases hcls
  · cases h

/-- A last part that may be repeated goes on as long as it can. -/
theorem matchLen_greedy (hmany : p.many = true) (h : matchLen (shape ++ [p]) t = some n) :
    ∀ c ∈ (t.drop n).head?, p.cls c = false := by
  induction shape generalizing t n with
  | nil =>
    rw [List.nil_append] at h
    unfold matchLen at h
    dsimp only at h
    rw [if_pos hmany] at h
    have hrun : n = (t.takeWhile p.cls).length := by
      cases hm : (t.takeWhile p.cls).length + 1 - p.min with
      | zero =>
        rw [hm] at h
        cases h
      | succ m =>
        rw [hm, List.range_succ_eq_map] at h
        cases h
        rfl
    have hdrop : t.drop n = t.dropWhile p.cls := by
      have hsplit : t.takeWhile p.cls ++ t.dropWhile p.cls = t := List.takeWhile_append_dropWhile
      have hleft : (t.takeWhile p.cls ++ t.dropWhile p.cls).drop (t.takeWhile p.cls).length = t.dropWhile p.cls :=
        List.drop_left
      rwa [hsplit, ← hrun] at hleft
    intro c hc
    have hhead := List.head?_dropWhile_not p.cls t
    rw [← hdrop, hc] at hhead
    exact hhead
  | cons q shape ih =>
    rw [List.cons_append] at h
    unfold matchLen at h
    dsimp only at h
    obtain ⟨k, -, h⟩ := List.exists_of_findSome?_eq_some h
    obtain ⟨m, hm, rfl⟩ := Option.map_eq_some_iff.1 h
    rw [← List.drop_drop]
    exact ih hm

/-- Nothing is found exactly if no word of the shape stands at the beginning. -/
theorem shapeFind_eq_zero (hne : ∀ w, Matches shape w → w ≠ []) :
    shapeFind shape t = 0 ↔ ∀ w, Matches shape w → ¬ w <+: t := by
  unfold shapeFind
  constructor
  · intro h w hw hprefix
    obtain ⟨n, hn⟩ := Option.isSome_iff_exists.1 (matchLen_complete hw hprefix)
    obtain ⟨w', -, hlen, hw'⟩ := matchLen_sound hn
    rw [hn] at h
    have hzero : w'.length = 0 := hlen.trans h
    exact hne w' hw' (List.length_eq_zero_iff.1 hzero)
  · intro h
    cases hn : matchLen shape t with
    | none => rfl
    | some n =>
      obtain ⟨w, hw, -, hmatches⟩ := matchLen_sound hn
      exact absurd hw (h w hmatches)

end Zedspaces.Lib
