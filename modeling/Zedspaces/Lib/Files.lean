/-
A tree of files: the entries by their paths, with symbolic links. A path is read entry by entry (`kind`), or
with its links followed (`follow`). Each operation on the tree has one lemma that says what stands at every path
afterwards (`kind_put`, `kind_clear`, `kind_graft`, `kind_move`, …); the lemmas about whole subtrees say what a
graft puts in place (`subtree_graft`).
-/
import Mathlib.Data.List.Dedup
import Mathlib.Data.List.Infix
import Zedspaces.Lib.Text

namespace Zedspaces.Lib.Files

/-- The names from the root down. -/
abbrev Path := List Text

/-- What a symbolic link says. -/
structure Target where
  absolute : Bool
  parts : List Text
  deriving DecidableEq, Repr

inductive Kind where
  | file (contents : Text)
  | dir
  | link (target : Target)
  deriving DecidableEq, Repr

/-- The entries; of two under one path the first stands. -/
abbrev Tree := List (Path × Kind)

/-- Neither path lies at or under the other. -/
def Apart (p q : Path) : Prop := ¬ p <+: q ∧ ¬ q <+: p

instance (p q : Path) : Decidable (Apart p q) := inferInstanceAs (Decidable (_ ∧ _))

/-- Strictly under a directory. -/
def Under (p q : Path) : Prop := p <+: q ∧ q ≠ p

instance (p q : Path) : Decidable (Under p q) := inferInstanceAs (Decidable (_ ∧ _))

variable {p q r a b : Path} {t t' : Tree} {k : Kind}

theorem Apart.symm (h : Apart p q) : Apart q p := ⟨h.2, h.1⟩

/-- Two paths above a third are one above the other. -/
theorem Apart.not_both (h : Apart p q) (hp : p <+: r) : ¬ q <+: r := fun hq =>
  (List.prefix_or_prefix_of_prefix hp hq).elim h.1 h.2

theorem Apart.under (h : Apart p q) (hr : p <+: r) : Apart r q :=
  ⟨fun hrq => h.1 (hr.trans hrq), fun hqr => h.not_both hr hqr⟩

theorem Apart.under_right (h : Apart p q) (hr : q <+: r) : Apart p r := (h.symm.under hr).symm

/-- Two names of one directory are apart. -/
theorem apart_siblings {n n' : Text} (h : n ≠ n') : Apart (p ++ [n]) (p ++ [n']) := by
  have hne : ∀ {m m' : Text}, m ≠ m' → ¬ p ++ [m] <+: p ++ [m'] := by
    intro m m' hm hpre
    rw [List.prefix_append_right_inj, List.cons_prefix_cons] at hpre
    exact hm hpre.1
  exact ⟨hne h, hne h.symm⟩

/-! ## Reading -/

def kind (t : Tree) (p : Path) : Option Kind := t.lookup p

theorem kind_nil : kind [] p = none := rfl

theorem kind_cons {e : Path × Kind} : kind (e :: t) p = if p = e.1 then some e.2 else kind t p := by
  rw [kind, List.lookup_cons]
  by_cases h : p = e.1
  · rw [if_pos h, h]
    simp
  · rw [if_neg h, beq_false_of_ne h]
    rfl

theorem mem_of_kind (h : kind t p = some k) : (p, k) ∈ t := by
  induction t with
  | nil => cases h
  | cons e t ih =>
    rw [kind_cons] at h
    split at h
    · rename_i hp
      cases h
      rw [hp]
      exact List.mem_cons_self ..
    · exact List.mem_cons_of_mem _ (ih h)

/-- Walks down from a directory; `onLink` goes on from a link's target. -/
def walk (t : Tree) (onLink : Path → List Text → Option Path) : Path → List Text → Option Path
  | base, [] => some base
  | base, c :: rest =>
    if c = ['.'] then walk t onLink base rest
    else if c = ['.', '.'] then walk t onLink base.dropLast rest
    else match kind t (base ++ [c]) with
      | none => none
      | some .dir => walk t onLink (base ++ [c]) rest
      | some (.file _) => if rest = [] then some (base ++ [c]) else none
      | some (.link target) => onLink (if target.absolute then [] else base) (target.parts ++ rest)

/-- The walk with a budget of links to follow. -/
def follow (t : Tree) : Nat → Path → List Text → Option Path
  | 0 => walk t fun _ _ => none
  | budget + 1 => walk t (follow t budget)

/-- How many links the kernel follows before it gives up. -/
def maxLinks : Nat := 40

/-- Whether the path below `base` leads to an entry. -/
def pathExists (t : Tree) (base : Path) (rest : List Text) : Bool := (follow t maxLinks base rest).isSome

/-- Whether it leads to a directory. -/
def isDir (t : Tree) (base : Path) (rest : List Text) : Bool :=
  match follow t maxLinks base rest with
  | some p => kind t p = some .dir
  | none => false

/-- A real directory is one. -/
theorem isDir_of_kind {n : Text} (hn : n ≠ ['.'] ∧ n ≠ ['.', '.']) (h : kind t (p ++ [n]) = some .dir) :
    isDir t p [n] = true := by
  have hwalk : follow t maxLinks p [n] = some (p ++ [n]) := by
    show walk t _ p [n] = _
    rw [walk, if_neg hn.1, if_neg hn.2, h]
    rfl
  rw [isDir, hwalk]
  exact decide_eq_true h

/-- The names of a directory's entries. -/
def children (t : Tree) (p : Path) : List Text :=
  (t.filterMap fun e => if e.1.dropLast = p then e.1.getLast? else none).dedup

theorem mem_children {n : Text} (h : kind t (p ++ [n]) = some k) : n ∈ children t p := by
  rw [children, List.mem_dedup, List.mem_filterMap]
  refine ⟨_, mem_of_kind h, ?_⟩
  simp

theorem nodup_children : (children t p).Nodup := List.nodup_dedup _

/-! ## Writing -/

def put (p : Path) (k : Kind) (t : Tree) : Tree := (p, k) :: t

/-- Without one entry. -/
def erase (p : Path) (t : Tree) : Tree := t.filter fun e => e.1 ≠ p

/-- Without an entry and everything under it. -/
def clear (p : Path) (t : Tree) : Tree := t.filter fun e => ¬ p <+: e.1

/-- What stands at and under a path, from there. -/
def subtree (p : Path) (t : Tree) : Tree :=
  t.filterMap fun e => if p <+: e.1 then some (e.1.drop p.length, e.2) else none

/-- Puts a tree in place of whatever stands at a path. -/
def graft (p : Path) (t' t : Tree) : Tree := t'.map (fun e => (p ++ e.1, e.2)) ++ clear p t

/-- Moves an entry, with everything under it, over another. -/
def move (a b : Path) (t : Tree) : Tree := graft b (subtree a t) (clear a t)

/-- Makes the directories missing on the way down to a path. -/
def mkdirAll (p : Path) (t : Tree) : Tree :=
  ((p.inits.filter fun q => kind t q = none).map fun q => (q, .dir)) ++ t

theorem kind_put : kind (put p k t) q = if q = p then some k else kind t q := kind_cons

theorem kind_filter {f : Path → Bool} : kind (t.filter fun e => f e.1) q = if f q then kind t q else none := by
  induction t with
  | nil => cases f q <;> rfl
  | cons e t ih =>
    rw [List.filter_cons, kind_cons]
    by_cases he : q = e.1
    · subst he
      cases hf : f e.1
      · rw [if_neg Bool.false_ne_true, ih, hf, if_neg Bool.false_ne_true, if_neg Bool.false_ne_true]
      · rw [if_pos rfl, kind_cons, if_pos rfl, if_pos rfl, if_pos rfl]
    · rw [if_neg he]
      split
      · rw [kind_cons, if_neg he, ih]
      · exact ih

theorem kind_erase : kind (erase p t) q = if q = p then none else kind t q := by
  have h := kind_filter (f := fun x => decide (x ≠ p)) (t := t) (q := q)
  rw [erase, h]
  by_cases hq : q = p <;> simp [hq]

theorem kind_clear : kind (clear p t) q = if p <+: q then none else kind t q := by
  have h := kind_filter (f := fun x => decide (¬ p <+: x)) (t := t) (q := q)
  rw [clear, h]
  by_cases hq : p <+: q <;> simp [hq]

theorem kind_append : kind (t ++ t') q = (kind t q).or (kind t' q) := by
  induction t with
  | nil => rfl
  | cons e t ih =>
    rw [List.cons_append, kind_cons, kind_cons, ih]
    split <;> rfl

theorem kind_graft_append : kind (graft p t' t) (p ++ r) = kind t' r := by
  rw [graft, kind_append, kind_clear, if_pos (List.prefix_append ..), Option.or_none]
  induction t' with
  | nil => rfl
  | cons e t' ih =>
    rw [List.map_cons, kind_cons, kind_cons, ih]
    simp only [List.append_cancel_left_eq]

theorem kind_graft_of_not (h : ¬ p <+: q) : kind (graft p t' t) q = kind t q := by
  rw [graft, kind_append, kind_clear, if_neg h]
  have hnone : kind (t'.map fun e => (p ++ e.1, e.2)) q = none := by
    induction t' with
    | nil => rfl
    | cons e t' ih =>
      rw [List.map_cons, kind_cons, ih, if_neg]
      rintro rfl
      exact h (List.prefix_append ..)
  rw [hnone, Option.none_or]

theorem kind_subtree : kind (subtree p t) r = kind t (p ++ r) := by
  induction t with
  | nil => rfl
  | cons e t ih =>
    rw [subtree, List.filterMap_cons]
    by_cases he : p <+: e.1
    · obtain ⟨r', hr'⟩ := he
      rw [if_pos ⟨r', hr'⟩]
      show kind ((e.1.drop p.length, e.2) :: subtree p t) r = _
      rw [kind_cons, kind_cons, ih, ← hr', List.drop_left]
      simp only [List.append_cancel_left_eq]
    · rw [if_neg he]
      show kind (subtree p t) r = _
      rw [ih, kind_cons, if_neg]
      intro heq
      exact he (heq ▸ List.prefix_append ..)

/-- A graft stands as a whole. -/
theorem subtree_graft : subtree p (graft p t' t) = t' := by
  have hclear : subtree p (clear p t) = [] := by
    rw [subtree, clear, List.filterMap_eq_nil_iff]
    intro e he
    rw [if_neg (of_decide_eq_true (List.mem_filter.1 he).2)]
  rw [graft, subtree, List.filterMap_append]
  show _ ++ subtree p (clear p t) = t'
  rw [hclear, List.append_nil, List.filterMap_map]
  refine (List.filterMap_congr fun e _ => ?_).trans List.filterMap_some
  show (if p <+: p ++ e.1 then some ((p ++ e.1).drop p.length, e.2) else none) = some e
  rw [if_pos (List.prefix_append ..), List.drop_left]

theorem subtree_move : subtree b (move a b t) = subtree a t := subtree_graft

theorem kind_move_append : kind (move a b t) (b ++ r) = kind t (a ++ r) := by
  rw [move, kind_graft_append, kind_subtree]

theorem kind_move_of_not (ha : ¬ a <+: q) (hb : ¬ b <+: q) : kind (move a b t) q = kind t q := by
  rw [move, kind_graft_of_not hb, kind_clear, if_neg ha]

theorem kind_mkdirAll : kind (mkdirAll p t) q = if q <+: p ∧ kind t q = none then some .dir else kind t q := by
  have hdirs : ∀ l : List Path, kind (l.map fun q => (q, Kind.dir)) q = if q ∈ l then some .dir else none := by
    intro l
    induction l with
    | nil => rfl
    | cons x l ih =>
      rw [List.map_cons, kind_cons, ih]
      by_cases hx : q = x
      · simp [hx]
      · simp [hx]
  rw [mkdirAll, kind_append, hdirs]
  simp only [List.mem_filter, List.mem_inits, decide_eq_true_eq]
  split <;> rfl

/-! ## What a change leaves alone -/

/-- A change of a tree that takes entries away, or changes them, at most where `clobbers` says, and writes entries that
were not there at most where `creates` says. -/
structure Frame (clobbers creates : Path → Prop) (t t' : Tree) : Prop where
  keeps : ∀ q k, ¬ clobbers q → kind t q = some k → kind t' q = some k
  vacant : ∀ q, ¬ creates q → kind t q = none → kind t' q = none

section
variable {clobbers creates : Path → Prop}

theorem frame_refl : Frame clobbers creates t t := ⟨fun _ _ _ h => h, fun _ _ h => h⟩

theorem frame_clear (h : ∀ q, p <+: q → clobbers q) : Frame clobbers creates t (clear p t) := by
  constructor
  · intro q k hq hk
    rw [kind_clear, if_neg fun hp => hq (h q hp), hk]
  · intro q _ hk
    rw [kind_clear, hk, ite_self]

theorem frame_erase (h : clobbers p) : Frame clobbers creates t (erase p t) := by
  constructor
  · intro q k hq hk
    rw [kind_erase, if_neg, hk]
    rintro rfl
    exact hq h
  · intro q _ hk
    rw [kind_erase, hk, ite_self]

theorem frame_put (hnone : kind t p = none) (h : creates p) : Frame clobbers creates t (put p k t) := by
  constructor
  · intro q k _ hk
    rw [kind_put, if_neg, hk]
    rintro rfl
    cases hnone.symm.trans hk
  · intro q hq hk
    rw [kind_put, if_neg, hk]
    rintro rfl
    exact hq h

theorem frame_mkdirAll (h : ∀ q, q <+: p → creates q) : Frame clobbers creates t (mkdirAll p t) := by
  constructor
  · intro q k _ hk
    rw [kind_mkdirAll, if_neg, hk]
    rintro ⟨-, hnone⟩
    cases hnone.symm.trans hk
  · intro q hq hk
    rw [kind_mkdirAll, if_neg fun hp => hq (h q hp.1), hk]

theorem frame_graft (h : ∀ q, p <+: q → clobbers q ∧ creates q) : Frame clobbers creates t (graft p t' t) := by
  constructor
  · intro q k hq hk
    rw [kind_graft_of_not fun hp => hq (h q hp).1, hk]
  · intro q hq hk
    rw [kind_graft_of_not fun hp => hq (h q hp).2, hk]

theorem frame_move (ha : ∀ q, a <+: q → clobbers q) (hb : ∀ q, b <+: q → clobbers q ∧ creates q) :
    Frame clobbers creates t (move a b t) := by
  constructor
  · intro q k hq hk
    rw [kind_move_of_not (fun hp => hq (ha q hp)) (fun hp => hq (hb q hp).1), hk]
  · intro q hq hk
    have hbq : ¬ b <+: q := fun hp => hq (hb q hp).2
    rw [move, kind_graft_of_not hbq, kind_clear, hk, ite_self]

end

end Zedspaces.Lib.Files
