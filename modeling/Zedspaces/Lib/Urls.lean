/-
URLs as a parser of the URL standard gives them, and absolute paths by their components. The parser itself is not
defined here: `Standard` collects what the standard promises of one, as far as a check of a URL or of an origin relies
on it.
-/
import Zedspaces.Lib.Text

namespace Zedspaces.Lib

/-! ## URLs -/

structure Url where
  scheme : Text
  username : Text
  password : Option Text
  host : Option Text
  port : Option Nat
  path : Text
  query : Option Text
  fragment : Option Text
  deriving DecidableEq

namespace Url

def https : Text := "https".toList

def http : Text := "http".toList

def schemeEnd : Text := "://".toList

/-- The serialised origin of a URL with a host. -/
def origin (url : Url) : Text :=
  url.scheme ++ schemeEnd ++ url.host.getD [] ++ url.port.elim [] fun port => ':' :: Nat.toDigits 10 port

/-- A character that stands for itself in a path. -/
def isPathChar (c : Char) : Bool := c.isAlphanum || c = '-' || c = '_' || c = '.' || c = '/'

/-- Two names of lower-case letters. -/
structure PlainHost (host : Text) : Prop where
  two : ∃ a b : Text, a ≠ [] ∧ b ≠ [] ∧ host = a ++ '.' :: b ∧ ∀ c ∈ a ++ b, c.isLower = true

/-- What a parser of the standard promises. -/
structure Standard (parse : Text → Except String Url) : Prop where
  /-- A URL does not start with a dash. -/
  dash : ∀ t url, parse ('-' :: t) ≠ .ok url
  /-- A URL of these schemes has a host, in which no slash stands. -/
  host : ∀ t url, parse t = .ok url → url.scheme = https ∨ url.scheme = http →
    ∃ host, url.host = some host ∧ host ≠ [] ∧ '/' ∉ host
  /-- Its serialised origin is a URL without anything else. -/
  origin : ∀ t url, parse t = .ok url → url.scheme = https ∨ url.scheme = http →
    parse url.origin = .ok { url with username := [], password := none, path := ['/'], query := none, fragment := none }
  /-- A plain host and path need no rewriting to be a URL. -/
  plain : ∀ host path, PlainHost host → (∀ c ∈ path, isPathChar c = true) →
    ∃ url, parse (https ++ schemeEnd ++ host ++ '/' :: path) = .ok url ∧ url.scheme = https

end Url

/-! ## Paths -/

namespace Path

inductive Component where
  | rootDir
  | curDir
  | parentDir
  | normal (name : Text)
  deriving DecidableEq, Repr

/-- The pieces between the slashes. -/
def pieces : Text → List Text
  | [] => [[]]
  | c :: t =>
    if c = '/' then [] :: pieces t
    else match pieces t with
      | piece :: rest => (c :: piece) :: rest
      | [] => [[c]]

def component (piece : Text) : Option Component :=
  if piece = [] ∨ piece = ['.'] then none
  else if piece = ['.', '.'] then some .parentDir
  else some (.normal piece)

def isAbsolute (path : Text) : Bool := path.head? = some '/'

/-- A `.` counts only where the path starts with it. -/
def components (path : Text) : List Component :=
  (if isAbsolute path then [.rootDir]
    else if path = ['.'] ∨ ['.', '/'].isPrefixOf path then [.curDir] else []) ++ (pieces path).filterMap component

def startsWith (path base : Text) : Bool := (components base).isPrefixOf (components path)

theorem pieces_cons_slash (t : Text) : pieces ('/' :: t) = [] :: pieces t := if_pos rfl

theorem pieces_cons_of_ne {c : Char} {t piece : Text} {rest : List Text} (hc : c ≠ '/')
    (h : pieces t = piece :: rest) : pieces (c :: t) = (c :: piece) :: rest := by
  rw [pieces, if_neg hc, h]

theorem pieces_name {name : Text} (h : '/' ∉ name) : pieces name = [name] := by
  induction name with
  | nil => rfl
  | cons c name ih =>
    have hc : c ≠ '/' := fun hc => h (hc ▸ List.mem_cons_self ..)
    exact pieces_cons_of_ne hc (ih fun hmem => h (List.mem_cons_of_mem _ hmem))

theorem pieces_append {a : Text} (h : '/' ∉ a) (b : Text) : pieces (a ++ '/' :: b) = a :: pieces b := by
  induction a with
  | nil => exact pieces_cons_slash b
  | cons c a ih =>
    have hc : c ≠ '/' := fun hc => h (hc ▸ List.mem_cons_self ..)
    exact pieces_cons_of_ne hc (ih fun hmem => h (List.mem_cons_of_mem _ hmem))

theorem pieces_ne_nil (t : Text) : pieces t ≠ [] := by
  induction t with
  | nil => exact List.cons_ne_nil _ _
  | cons c t ih =>
    by_cases hc : c = '/'
    · rw [hc, pieces_cons_slash]
      exact List.cons_ne_nil _ _
    · obtain ⟨piece, rest, hpieces⟩ := List.exists_cons_of_ne_nil ih
      rw [pieces_cons_of_ne hc hpieces]
      exact List.cons_ne_nil _ _

/-- The pieces on either side of a slash. -/
theorem pieces_slash (a b : Text) : pieces (a ++ '/' :: b) = pieces a ++ pieces b := by
  induction a with
  | nil => exact pieces_cons_slash b
  | cons c a ih =>
    obtain ⟨piece, rest, hpieces⟩ := List.exists_cons_of_ne_nil (pieces_ne_nil a)
    by_cases hc : c = '/'
    · rw [hc, List.cons_append, pieces_cons_slash, ih, pieces_cons_slash, List.cons_append]
    · rw [hpieces, List.cons_append] at ih
      rw [List.cons_append, pieces_cons_of_ne hc ih, pieces_cons_of_ne hc hpieces, List.cons_append]

/-- An ending without a slash ends a piece. -/
theorem exists_piece_of_suffix {b : Text} (hb : '/' ∉ b) (a : Text) : ∃ piece ∈ pieces (a ++ b), b <:+ piece := by
  induction a with
  | nil =>
    rw [List.nil_append, pieces_name hb]
    exact ⟨b, List.mem_singleton_self b, List.suffix_rfl⟩
  | cons c a ih =>
    obtain ⟨piece, hmem, hsuffix⟩ := ih
    by_cases hc : c = '/'
    · rw [hc, List.cons_append, pieces_cons_slash]
      exact ⟨piece, List.mem_cons_of_mem _ hmem, hsuffix⟩
    · obtain ⟨first, rest, hpieces⟩ := List.exists_cons_of_ne_nil (pieces_ne_nil (a ++ b))
      rw [List.cons_append, pieces_cons_of_ne hc hpieces]
      rw [hpieces] at hmem
      rcases List.mem_cons.1 hmem with rfl | hmem
      · exact ⟨c :: piece, List.mem_cons_self .., hsuffix.trans (List.suffix_cons ..)⟩
      · exact ⟨piece, List.mem_cons_of_mem _ hmem, hsuffix⟩

/-- A name that a directory can have. -/
structure IsName (name : Text) : Prop where
  nonempty : name ≠ []
  slash : '/' ∉ name
  dot : name ≠ ['.']
  dots : name ≠ ['.', '.']

theorem IsName.component {name : Text} (h : IsName name) : component name = some (.normal name) := by
  rw [Path.component, if_neg (not_or_intro h.nonempty h.dot), if_neg h.dots]

/-- The components of a directory two levels below the root. -/
theorem components_two {a b : Text} (ha : IsName a) (hb : IsName b) :
    components ('/' :: a ++ '/' :: b) = [.rootDir, .normal a, .normal b] := by
  have hpieces : pieces ('/' :: a ++ '/' :: b) = [[], a, b] := by
    rw [List.cons_append, pieces_cons_slash, pieces_append ha.slash, pieces_name hb.slash]
  have habs : isAbsolute ('/' :: a ++ '/' :: b) = true := rfl
  rw [components, if_pos habs, hpieces, List.filterMap_cons_none rfl, List.filterMap_cons_some ha.component,
    List.filterMap_cons_some hb.component]
  rfl

end Path

end Zedspaces.Lib
