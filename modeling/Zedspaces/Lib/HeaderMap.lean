/-
Maps from names to one or more values in order, as the headers of a message are. Setting a name leaves it one value,
and what is done to one name leaves the values of the others (`lines_insert_of_ne`, `lines_remove_of_ne`).
-/
import Mathlib.Tactic.Common

namespace Zedspaces.Lib

/-- The lines of a message head, by name. -/
abbrev HeaderMap (α : Type*) := List (String × α)

namespace HeaderMap

variable {α : Type*} {h : HeaderMap α} {name other : String} {value : α}

/-- The values of a name, in order. -/
def lines (h : HeaderMap α) (name : String) : List α := (h.filter (·.1 = name)).map Prod.snd

/-- The first value of a name. -/
def get (h : HeaderMap α) (name : String) : Option α := (h.find? (·.1 = name)).map Prod.snd

def contains (h : HeaderMap α) (name : String) : Bool := h.any (·.1 = name)

def remove (h : HeaderMap α) (name : String) : HeaderMap α := h.filter (·.1 ≠ name)

/-- Sets a name to one value, where its first value stands or at the end. -/
def insert (h : HeaderMap α) (name : String) (value : α) : HeaderMap α :=
  match h with
  | [] => [(name, value)]
  | line :: rest => if line.1 = name then (name, value) :: remove rest name else line :: insert rest name value

theorem get_eq_head? : h.get name = (h.lines name).head? := by
  rw [get, lines, List.head?_map, List.head?_filter]

theorem lines_remove_self : (h.remove name).lines name = [] := by
  rw [lines, remove, List.filter_filter, List.map_eq_nil_iff, List.filter_eq_nil_iff]
  simp

theorem lines_remove_of_ne (hne : other ≠ name) : (h.remove name).lines other = h.lines other := by
  rw [lines, lines, remove, List.filter_filter]
  congr 2
  funext line
  by_cases hline : line.1 = other
  · simp [hline, hne]
  · simp [hline]

theorem lines_cons (line : String × α) (rest : HeaderMap α) :
    lines (line :: rest) name = if line.1 = name then line.2 :: lines rest name else lines rest name := by
  unfold lines
  by_cases hline : line.1 = name
  · rw [List.filter_cons_of_pos (by simpa using hline), List.map_cons, if_pos hline]
  · rw [List.filter_cons_of_neg (by simpa using hline), if_neg hline]

theorem lines_insert_self : (h.insert name value).lines name = [value] := by
  induction h with
  | nil => rw [insert, lines_cons, if_pos rfl]; rfl
  | cons line rest ih =>
    rw [insert]
    split
    · rw [lines_cons, if_pos rfl, lines_remove_self]
    · next hline => rw [lines_cons, if_neg hline, ih]

theorem lines_insert_of_ne (hne : other ≠ name) : (h.insert name value).lines other = h.lines other := by
  induction h with
  | nil => rw [insert, lines_cons, if_neg (Ne.symm hne)]
  | cons line rest ih =>
    rw [insert]
    split
    · next hline =>
      rw [lines_cons, if_neg (Ne.symm hne), lines_remove_of_ne hne, lines_cons, if_neg fun he => hne (he.symm.trans hline)]
    · rw [lines_cons, lines_cons, ih]

end HeaderMap

end Zedspaces.Lib
