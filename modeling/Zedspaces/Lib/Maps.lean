/-
Loops that build ordered maps. A loop that inserts one entry for each element of a list leaves under
every key the entry of the last element that writes it (`getElem?_writeAll`); a loop that modifies one
entry for each element of a list whose keys are distinct applies exactly one change to each of them
(`getElem?_modifyAll`).
-/
import Mathlib.Tactic.Common
import Mathlib.Data.List.Nodup
import Mathlib.Data.List.Induction

namespace Zedspaces.Lib.Maps

open Std

variable {α : Type} {β γ : Type*}

/-! ## The last writer of a key -/

section
variable {key : γ → Option α} {l : List γ} {k : α}

/-- The element is the last of the list that writes `k`. -/
def LastWriter (key : γ → Option α) (l : List γ) (k : α) (x : γ) : Prop :=
  ∃ l₁ l₂, l = l₁ ++ x :: l₂ ∧ key x = some k ∧ ∀ y ∈ l₂, key y ≠ some k

theorem LastWriter.mem {x : γ} (h : LastWriter key l k x) : x ∈ l ∧ key x = some k := by
  obtain ⟨l₁, l₂, rfl, hk, -⟩ := h
  exact ⟨by simp, hk⟩

theorem lastWriter_concat {x y : γ} : LastWriter key (l ++ [y]) k x ↔
    key y = some k ∧ x = y ∨ key y ≠ some k ∧ LastWriter key l k x := by
  constructor
  · rintro ⟨l₁, l₂, h, hk, hlast⟩
    rcases List.eq_nil_or_concat' l₂ with rfl | ⟨l₂, z, rfl⟩
    · obtain ⟨-, rfl⟩ := List.append_singleton_inj.1 h
      exact .inl ⟨hk, rfl⟩
    · obtain ⟨rfl, rfl⟩ : l = l₁ ++ x :: l₂ ∧ y = z := by
        have h' : l ++ [y] = (l₁ ++ x :: l₂) ++ [z] := by rw [h]; simp
        exact List.append_singleton_inj.1 h'
      exact .inr ⟨hlast y (by simp), l₁, l₂, rfl, hk, fun w hw => hlast w (by simp [hw])⟩
  · rintro (⟨hk, rfl⟩ | ⟨hne, l₁, l₂, rfl, hk, hlast⟩)
    · exact ⟨l, [], rfl, hk, by rintro _ ⟨⟩⟩
    · refine ⟨l₁, l₂ ++ [y], by simp, hk, fun z hz => ?_⟩
      rcases List.mem_append.1 hz with hz | hz
      · exact hlast z hz
      · rw [List.mem_singleton.1 hz]; exact hne

/-- A key that some element writes has a last writer. -/
theorem exists_lastWriter {x : γ} (hx : x ∈ l) (hk : key x = some k) : ∃ y, LastWriter key l k y := by
  induction l using List.reverseRecOn with
  | nil => cases hx
  | append_singleton l y ih =>
    by_cases hy : key y = some k
    · exact ⟨y, lastWriter_concat.2 (.inl ⟨hy, rfl⟩)⟩
    · rcases List.mem_append.1 hx with hx | hx
      · obtain ⟨z, hz⟩ := ih hx
        exact ⟨z, lastWriter_concat.2 (.inr ⟨hy, hz⟩)⟩
      · exact absurd (List.mem_singleton.1 hx ▸ hk) hy

/-- Along a list sorted by `r`, the last writer of a key comes after every other writer of it. -/
theorem LastWriter.rel {r : γ → γ → Prop} {x y : γ} (h : LastWriter key l k x) (hs : l.Pairwise r) (hy : y ∈ l)
    (hk : key y = some k) : y = x ∨ r y x := by
  obtain ⟨l₁, l₂, rfl, -, hlast⟩ := h
  rcases List.mem_append.1 hy with hy | hy
  · exact .inr ((List.pairwise_append.1 hs).2.2 y hy x (by simp))
  · rcases List.mem_cons.1 hy with rfl | hy
    · exact .inl rfl
    · exact absurd hk (hlast y hy)

end

variable {cmp : α → α → Ordering} [TransCmp cmp] {t : ExtTreeMap α β cmp} {k a : α} {v : β}

/-- The values, by key. -/
def values (t : ExtTreeMap α β cmp) : List β := t.toList.map Prod.snd

theorem mem_values [LawfulEqCmp cmp] : v ∈ values t ↔ ∃ k : α, t[k]? = some v := by
  simp only [values, List.mem_map, Prod.exists, exists_eq_right, ExtTreeMap.mem_toList_iff_getElem?_eq_some]

/-- The keys of a map's list are distinct. -/
theorem nodup_keys [LawfulEqCmp cmp] : (t.toList.map Prod.fst).Nodup := by
  rw [List.Nodup, List.pairwise_map]
  exact ExtTreeMap.distinct_keys_toList.imp fun h he => h (LawfulEqCmp.compare_eq_iff_eq.2 he)

/-! ## Inserting one entry for each element -/

/-- Inserts the entry of each element in turn; an element without a key writes nothing. -/
def writeAll (key : γ → Option α) (val : γ → β) (l : List γ) (t : ExtTreeMap α β cmp) : ExtTreeMap α β cmp :=
  l.foldl (fun t x => match key x with
    | some k => t.insert k (val x)
    | none => t) t

variable {key : γ → Option α} {val : γ → β} {l : List γ}

theorem writeAll_concat (y : γ) : writeAll key val (l ++ [y]) t = match key y with
    | some k => (writeAll key val l t).insert k (val y)
    | none => writeAll key val l t := by
  rw [writeAll, List.foldl_append]; rfl

variable [LawfulEqCmp cmp] [DecidableEq α]

theorem getElem?_insert : (t.insert k v)[a]? = if k = a then some v else t[a]? := by
  simp only [ExtTreeMap.getElem?_insert, LawfulEqCmp.compare_eq_iff_eq]

theorem getElem?_erase : (t.erase k)[a]? = if k = a then none else t[a]? := by
  simp only [ExtTreeMap.getElem?_erase, LawfulEqCmp.compare_eq_iff_eq]

theorem getElem?_insertIfNew : (t.insertIfNew k v)[a]? = t[a]?.or (if k = a then some v else none) := by
  simp only [ExtTreeMap.getElem?_insertIfNew, LawfulEqCmp.compare_eq_iff_eq, ExtTreeMap.mem_iff_isSome_getElem?]
  by_cases hk : k = a
  · subst hk
    cases t[k]? <;> simp
  · simp [hk]

theorem getElem?_modify {f : β → β} : (t.modify k f)[a]? = if k = a then t[k]?.map f else t[a]? := by
  simp only [ExtTreeMap.getElem?_modify, LawfulEqCmp.compare_eq_iff_eq]

/-- The last writer of a key decides its entry; a key that nobody writes keeps its own. -/
theorem getElem?_writeAll : (writeAll key val l t)[k]? = some v ↔
    (∃ x, LastWriter key l k x ∧ val x = v) ∨ (∀ x ∈ l, key x ≠ some k) ∧ t[k]? = some v := by
  induction l using List.reverseRecOn with
  | nil =>
    constructor
    · exact fun h => .inr ⟨by rintro _ ⟨⟩, h⟩
    · rintro (⟨x, hx, -⟩ | ⟨-, h⟩)
      · cases hx.mem.1
      · exact h
  | append_singleton l y ih =>
    have hmem : (∀ x ∈ l ++ [y], key x ≠ some k) ↔ key y ≠ some k ∧ ∀ x ∈ l, key x ≠ some k := by
      simp [or_imp, forall_and, and_comm]
    rw [writeAll_concat, hmem]
    cases hy : key y with
    | none =>
      simp only [lastWriter_concat, hy, reduceCtorEq, false_and, false_or, not_false_eq_true, ne_eq, true_and]
      exact ih
    | some k' =>
      rw [getElem?_insert]
      by_cases hk : k' = k
      · subst hk
        simp [lastWriter_concat, hy]
      · rw [if_neg hk, ih]
        simp [lastWriter_concat, hy, hk]

theorem getElem?_writeAll_isSome {x : γ} (hx : x ∈ l) (hk : key x = some k) :
    ∃ y, LastWriter key l k y ∧ (writeAll key val l t)[k]? = some (val y) := by
  obtain ⟨y, hy⟩ := exists_lastWriter hx hk
  exact ⟨y, hy, getElem?_writeAll.2 (.inl ⟨y, hy, rfl⟩)⟩

/-- The key of an entry, if it passes `p`. -/
def keyIf (p : α → Bool) (e : α × β) : Option α := if p e.1 then some e.1 else none

omit [LawfulEqCmp cmp] [DecidableEq α] [TransCmp cmp] in
theorem keyIf_eq_some {p : α → Bool} {e : α × β} : keyIf p e = some k ↔ p k = true ∧ e.1 = k := by
  unfold keyIf
  by_cases he : p e.1 = true
  · rw [if_pos he]
    constructor
    · rintro ⟨⟩
      exact ⟨he, rfl⟩
    · rintro ⟨-, rfl⟩
      rfl
  · rw [if_neg he]
    constructor
    · rintro ⟨⟩
    · rintro ⟨hk, rfl⟩
      exact absurd hk he

/-- Inserting those entries of a map whose key passes `p`: they come before the entries there were. -/
theorem getElem?_writeAll_toList {p : α → Bool} {m : ExtTreeMap α β cmp} :
    (writeAll (keyIf p) Prod.snd m.toList t)[k]? = if p k then m[k]?.or t[k]? else t[k]? := by
  by_cases hk : p k = true
  · rw [if_pos hk]
    cases hm : m[k]? with
    | none =>
      refine Option.ext fun v => getElem?_writeAll.trans ⟨?_, fun h => .inr ⟨fun e he hw => ?_, h⟩⟩
      · rintro (⟨e, he, -⟩ | ⟨-, h⟩)
        · obtain ⟨hmem, hw⟩ := he.mem
          rw [← (keyIf_eq_some.1 hw).2, ExtTreeMap.mem_toList_iff_getElem?_eq_some.1 hmem] at hm
          cases hm
        · exact h
      · rw [← (keyIf_eq_some.1 hw).2, ExtTreeMap.mem_toList_iff_getElem?_eq_some.1 he] at hm
        cases hm
    | some v =>
      have hkey : keyIf p (k, v) = some k := keyIf_eq_some.2 ⟨hk, rfl⟩
      have hmem : (k, v) ∈ m.toList := ExtTreeMap.mem_toList_iff_getElem?_eq_some.2 hm
      obtain ⟨e, hw, hget⟩ : ∃ e, LastWriter (keyIf p) m.toList k e ∧
          (writeAll (keyIf p) Prod.snd m.toList t)[k]? = some e.2 := getElem?_writeAll_isSome hmem hkey
      have he : m[k]? = some e.2 := by
        rw [← (keyIf_eq_some.1 hw.mem.2).2]
        exact ExtTreeMap.mem_toList_iff_getElem?_eq_some.1 hw.mem.1
      rw [hget, ← he, hm]
      rfl
  · rw [if_neg hk]
    refine Option.ext fun v => getElem?_writeAll.trans ⟨?_, fun h => .inr ⟨fun e _ he => hk (keyIf_eq_some.1 he).1, h⟩⟩
    rintro (⟨e, he, -⟩ | ⟨-, h⟩)
    · exact absurd (keyIf_eq_some.1 he.mem.2).1 hk
    · exact h

/-! ## Modifying one entry for each element -/

/-- Modifies the entry of each element's key in turn. -/
def modifyAll (key : γ → α) (f : γ → β → β) (l : List γ) (t : ExtTreeMap α β cmp) : ExtTreeMap α β cmp :=
  l.foldl (fun t x => t.modify (key x) (f x)) t

section
variable {key : γ → α} {f : γ → β → β}

/-- A key of no element keeps its entry. -/
theorem getElem?_modifyAll_of_notMem (h : ∀ x ∈ l, key x ≠ k) : (modifyAll key f l t)[k]? = t[k]? := by
  induction l generalizing t with
  | nil => rfl
  | cons x l ih =>
    show (modifyAll key f l (t.modify (key x) (f x)))[k]? = _
    rw [ih fun y hy => h y (List.mem_cons_of_mem _ hy), getElem?_modify, if_neg (h x (by simp))]

/-- Each key of a list with distinct keys gets its own element's change. -/
theorem getElem?_modifyAll {x : γ} (hd : (l.map key).Nodup) (hx : x ∈ l) :
    (modifyAll key f l t)[key x]? = t[key x]?.map (f x) := by
  induction l generalizing t with
  | nil => cases hx
  | cons y l ih =>
    obtain ⟨hy, hd⟩ := List.nodup_cons.1 hd
    show (modifyAll key f l (t.modify (key y) (f y)))[key x]? = _
    rcases List.mem_cons.1 hx with rfl | hx
    · rw [getElem?_modifyAll_of_notMem, getElem?_modify, if_pos rfl]
      rintro z hz hk
      exact hy (List.mem_map.2 ⟨z, hz, hk⟩)
    · rw [ih hd hx, getElem?_modify, if_neg]
      intro hk
      exact hy (List.mem_map.2 ⟨x, hx, hk.symm⟩)

end

end Zedspaces.Lib.Maps
