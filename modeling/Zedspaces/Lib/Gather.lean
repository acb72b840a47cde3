/-
A loop that gathers the elements of a list into an ordered map: an element is put under its key, or merged into what is
there. The entry of a key is its first element with the others merged into it in their order (`getElem?_gather`).
-/
import Zedspaces.Lib.Maps

namespace Zedspaces.Lib.Maps

open Std

variable {α : Type} {β γ : Type*} {cmp : α → α → Ordering} [TransCmp cmp] {l : List γ} {t : ExtTreeMap α β cmp} {k : α}

/-- Inserts each element in turn, or merges it into what is under its key already. -/
def gather (key : γ → α) (new : γ → β) (merge : β → γ → β) (l : List γ) (t : ExtTreeMap α β cmp) : ExtTreeMap α β cmp :=
  l.foldl (fun t x => match t[key x]? with
    | some existing => t.insert (key x) (merge existing x)
    | none => t.insert (key x) (new x)) t

section
variable [LawfulEqCmp cmp] [DecidableEq α] {key : γ → α} {new : γ → β} {merge : β → γ → β}

/-- What is under a key is made of the elements of the key, in their order. -/
theorem getElem?_gather : (gather key new merge l t)[k]? =
    (l.filter fun x => key x = k).foldl (fun entry x => some (entry.elim (new x) (merge · x))) t[k]? := by
  induction l generalizing t with
  | nil => rfl
  | cons x l ih =>
    have hput : ∀ a : α, (match t[key x]? with
        | some existing => t.insert (key x) (merge existing x)
        | none => t.insert (key x) (new x))[a]? =
        if key x = a then some (t[a]?.elim (new x) (merge · x)) else t[a]? := by
      intro a
      cases hx : t[key x]? with
      | some existing =>
        show (t.insert (key x) (merge existing x))[a]? = _
        rw [getElem?_insert]
        split
        · next ha => rw [← ha, hx]; rfl
        · rfl
      | none =>
        show (t.insert (key x) (new x))[a]? = _
        rw [getElem?_insert]
        split
        · next ha => rw [← ha, hx]; rfl
        · rfl
    rw [gather, List.foldl_cons, ← gather, ih, hput]
    by_cases hk : key x = k
    · rw [if_pos hk, List.filter_cons_of_pos (by simpa using hk), List.foldl_cons]
    · rw [if_neg hk, List.filter_cons_of_neg (by simpa using hk)]

omit [TransCmp cmp] [LawfulEqCmp cmp] [DecidableEq α] in
/-- A key without an entry gets one from its first element, into which the others are merged. -/
theorem foldl_gathered (x : γ) (l : List γ) : (x :: l).foldl
    (fun entry x => some (entry.elim (new x) (merge · x))) (none : Option β) = some (l.foldl merge (new x)) := by
  have hsome : ∀ (l : List γ) (b : β), l.foldl
      (fun entry x => some (entry.elim (new x) (merge · x))) (some b) = some (l.foldl merge b) := by
    intro l
    induction l with
    | nil => exact fun _ => rfl
    | cons y l ih => exact fun b => ih (merge b y)
  exact hsome l (new x)

end

end Zedspaces.Lib.Maps
