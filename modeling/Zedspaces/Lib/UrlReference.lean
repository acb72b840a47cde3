/-
References that start with a slash, resolved against a URL of a special scheme as the URL standard does it: two
slashes, or backslashes, name another authority; one keeps the base's origin and gives a path, from which dot segments
are removed, a query and a fragment. A path may come out of it that begins with an empty segment, so that the text
written back names an authority: exactly where an empty segment stands on the root and is not climbed over
(`path_doubled`).
-/
import Zedspaces.Lib.Urls
import Zedspaces.Lib.Utf8

namespace Zedspaces.Lib

/-- Path, query and fragment of a URL. -/
structure UrlTail where
  path : List Text
  query : Option Text
  fragment : Option Text
  deriving DecidableEq

namespace UrlTail

def pathname (url : UrlTail) : Text := url.path.flatMap ('/' :: ·)

/-- Empty for an empty query as for none. -/
def search (url : UrlTail) : Text :=
  match url.query with
  | none | some [] => []
  | some query => '?' :: query

def hash (url : UrlTail) : Text :=
  match url.fragment with
  | none | some [] => []
  | some fragment => '#' :: fragment

def text (url : UrlTail) : Text := url.pathname ++ url.search ++ url.hash

end UrlTail

namespace UrlReference

/-! ## Percent-encoding -/

def percentEncodeByte (b : UInt8) : Text :=
  ['%', Text.upperHexDigit (b.toNat / 16), Text.upperHexDigit (b.toNat % 16)]

def percentEncodeChar (set : Char → Bool) (c : Char) : Text :=
  if set c then (String.utf8EncodeChar c).flatMap percentEncodeByte else [c]

def c0ControlSet (c : Char) : Bool := c.toNat < 0x20 || 0x7E < c.toNat

def fragmentSet (c : Char) : Bool := c0ControlSet c || c ∈ [' ', '"', '<', '>', '\x60']

def querySet (c : Char) : Bool := c0ControlSet c || c ∈ [' ', '"', '#', '<', '>']

def specialQuerySet (c : Char) : Bool := querySet c || c = '\''

def pathSet (c : Char) : Bool := querySet c || c ∈ ['?', '^', '\x60', '\x7b', '\x7d']

/-! ## The states of the parser -/

def isSingleDot (segment : Text) : Bool := segment.map Char.toLower ∈ [".".toList, "%2e".toList]

def isDoubleDot (segment : Text) : Bool :=
  segment.map Char.toLower ∈ ["..".toList, ".%2e".toList, "%2e.".toList, "%2e%2e".toList]

/-- The path after the segment in the buffer, which a slash ends or which is the last. -/
def endSegment (path : List Text) (buffer : Text) (slash : Bool) : List Text :=
  if isDoubleDot buffer then if slash then path.dropLast else path.dropLast ++ [[]]
  else if isSingleDot buffer then if slash then path else path ++ [[]]
  else path ++ [buffer]

def fragmentState (t : Text) : Text := t.flatMap (percentEncodeChar fragmentSet)

def queryState (t : Text) : Text × Option Text :=
  ((t.takeWhile (· ≠ '#')).flatMap (percentEncodeChar specialQuerySet),
    match t.dropWhile (· ≠ '#') with
    | [] => none
    | _ :: rest => some (fragmentState rest))

def isSlash (c : Char) : Bool := c = '/' || c = '\\'

def pathState (path : List Text) (buffer : Text) : Text → UrlTail
  | [] => ⟨endSegment path buffer false, none, none⟩
  | c :: rest =>
    if isSlash c then pathState (endSegment path buffer true) [] rest
    else if c = '?' then ⟨endSegment path buffer false, some (queryState rest).1, (queryState rest).2⟩
    else if c = '#' then ⟨endSegment path buffer false, none, some (fragmentState rest)⟩
    else pathState path (buffer ++ percentEncodeChar pathSet c) rest

/-- Without controls and spaces around it, and without tabs and line ends in it. -/
def clean (t : Text) : Text :=
  ((t.dropWhile fun c => c.toNat ≤ 0x20).reverse.dropWhile fun c => c.toNat ≤ 0x20).reverse.filter fun c =>
    c ≠ '\t' && c ≠ '\n' && c ≠ '\r'

end UrlReference

/-- What a reference names: a path of the base's origin, an authority of its own, or anything else, as a URL with a
scheme does. -/
inductive UrlReference where
  | path (url : UrlTail)
  | authority (rest : Text)
  | other (t : Text)
  deriving DecidableEq

namespace UrlReference

def parse (t : Text) : UrlReference :=
  match clean t with
  | [] => .other []
  | c :: rest =>
    if !isSlash c then .other (c :: rest)
    else match rest with
      | [] => .path (pathState [] [] [])
      | d :: more => if isSlash d then .authority more else .path (pathState [] [] rest)

/-! ## What is written back -/

variable {c : Char} {t buffer segment : Text} {path : List Text} {set : Char → Bool}

theorem upperHexDigit_plain : ∀ n, n < 16 → 0x20 < (Text.upperHexDigit n).toNat ∧
    (Text.upperHexDigit n).toNat ≤ 0x7E ∧ isSlash (Text.upperHexDigit n) = false := by decide

/-- Visible ASCII, and no slash. -/
def Plain (c : Char) : Prop := 0x20 < c.toNat ∧ c.toNat ≤ 0x7E ∧ isSlash c = false

theorem plain_percentEncodeByte {b : UInt8} (h : c ∈ percentEncodeByte b) : Plain c := by
  have hlt : b.toNat < 256 := b.toNat_lt
  simp only [percentEncodeByte, List.mem_cons, List.not_mem_nil, or_false] at h
  rcases h with rfl | rfl | rfl
  · exact ⟨by decide, by decide, rfl⟩
  · exact upperHexDigit_plain _ (by omega)
  · exact upperHexDigit_plain _ (by omega)

theorem mem_percentEncodeChar {d : Char} (h : c ∈ percentEncodeChar set d) : Plain c ∨ c = d ∧ set d = false := by
  unfold percentEncodeChar at h
  split at h
  · obtain ⟨b, -, hc⟩ := List.mem_flatMap.1 h
    exact .inl (plain_percentEncodeByte hc)
  · next hset => exact .inr ⟨List.mem_singleton.1 h, eq_false_of_ne_true hset⟩

/-- A character the sets leave alone is visible ASCII. -/
theorem visible_of_set (h : querySet c = false ∨ fragmentSet c = false) : 0x20 < c.toNat ∧ c.toNat ≤ 0x7E := by
  have hspace : c ≠ ' ' → c.toNat ≠ 0x20 := fun hne heq => hne (Char.toNat_inj.1 heq)
  rcases h with h | h
  all_goals
    simp only [querySet, fragmentSet, c0ControlSet, Bool.or_eq_false_iff, decide_eq_false_iff_not, List.mem_cons,
      not_or] at h
    have hne := hspace h.2.1
    omega

/-- What the text of the URL is written in: segments of plain characters, and visible ones after them. -/
structure Written (url : UrlTail) : Prop where
  nonempty : url.path ≠ []
  path : ∀ segment ∈ url.path, ∀ c ∈ segment, Plain c
  query : ∀ query, url.query = some query → ∀ c ∈ query, 0x20 < c.toNat ∧ c.toNat ≤ 0x7E
  fragment : ∀ fragment, url.fragment = some fragment → ∀ c ∈ fragment, 0x20 < c.toNat ∧ c.toNat ≤ 0x7E

theorem visible_fragmentState (h : c ∈ fragmentState t) : 0x20 < c.toNat ∧ c.toNat ≤ 0x7E := by
  obtain ⟨d, -, hc⟩ := List.mem_flatMap.1 h
  rcases mem_percentEncodeChar hc with hplain | ⟨rfl, hset⟩
  · exact ⟨hplain.1, hplain.2.1⟩
  · exact visible_of_set (.inr hset)

theorem visible_queryState : (∀ c ∈ (queryState t).1, 0x20 < c.toNat ∧ c.toNat ≤ 0x7E) ∧
    ∀ fragment, (queryState t).2 = some fragment → ∀ c ∈ fragment, 0x20 < c.toNat ∧ c.toNat ≤ 0x7E := by
  constructor
  · intro c hc
    obtain ⟨d, -, hc⟩ := List.mem_flatMap.1 hc
    rcases mem_percentEncodeChar hc with hplain | ⟨rfl, hset⟩
    · exact ⟨hplain.1, hplain.2.1⟩
    · exact visible_of_set (.inl (Bool.or_eq_false_iff.1 hset).1)
  · intro fragment h
    unfold queryState at h
    dsimp only at h
    split at h
    · cases h
    · cases h
      exact fun c hc => visible_fragmentState hc

theorem endSegment_ne_nil : endSegment path buffer false ≠ [] := by
  unfold endSegment
  split
  · simp
  · split <;> simp

theorem mem_endSegment {slash : Bool} (h : segment ∈ endSegment path buffer slash) :
    segment ∈ path ∨ segment = buffer ∨ segment = [] := by
  unfold endSegment at h
  split at h
  · split at h
    · exact .inl (List.dropLast_subset _ h)
    · rcases List.mem_append.1 h with h | h
      · exact .inl (List.dropLast_subset _ h)
      · exact .inr (.inr (List.mem_singleton.1 h))
  · split at h
    · split at h
      · exact .inl h
      · rcases List.mem_append.1 h with h | h
        · exact .inl h
        · exact .inr (.inr (List.mem_singleton.1 h))
    · rcases List.mem_append.1 h with h | h
      · exact .inl h
      · exact .inr (.inl (List.mem_singleton.1 h))

theorem plain_endSegment {slash : Bool} (hpath : ∀ segment ∈ path, ∀ c ∈ segment, Plain c)
    (hbuffer : ∀ c ∈ buffer, Plain c) : ∀ segment ∈ endSegment path buffer slash, ∀ c ∈ segment, Plain c := by
  intro segment h
  rcases mem_endSegment h with h | rfl | rfl
  · exact hpath segment h
  · exact hbuffer
  · rintro _ ⟨⟩

theorem written_pathState (hpath : ∀ segment ∈ path, ∀ c ∈ segment, Plain c) (hbuffer : ∀ c ∈ buffer, Plain c) :
    Written (pathState path buffer t) := by
  induction t generalizing path buffer with
  | nil => exact ⟨endSegment_ne_nil, plain_endSegment hpath hbuffer, by rintro _ ⟨⟩, by rintro _ ⟨⟩⟩
  | cons c t ih =>
    rw [pathState]
    split
    · exact ih (plain_endSegment hpath hbuffer) (by rintro _ ⟨⟩)
    · next hslash =>
      split
      · refine ⟨endSegment_ne_nil, plain_endSegment hpath hbuffer, ?_, visible_queryState.2⟩
        rintro _ ⟨⟩
        exact visible_queryState.1
      · split
        · refine ⟨endSegment_ne_nil, plain_endSegment hpath hbuffer, by rintro _ ⟨⟩, ?_⟩
          rintro _ ⟨⟩
          exact fun d hd => visible_fragmentState hd
        · refine ih hpath fun d hd => ?_
          rcases List.mem_append.1 hd with hd | hd
          · exact hbuffer d hd
          · rcases mem_percentEncodeChar hd with hplain | ⟨rfl, hset⟩
            · exact hplain
            · have hvisible := visible_of_set (.inl (Bool.or_eq_false_iff.1 hset).1)
              exact ⟨hvisible.1, hvisible.2, eq_false_of_ne_true hslash⟩

/-! ## Dot segments -/

/-- A segment of the text as it is compared. -/
def encode (segment : Text) : Text := segment.flatMap (percentEncodeChar pathSet)

/-- The bytes of a character that the path does not keep are not a dot's. -/
theorem ne_dot_of_pathSet (h : pathSet c = true) : ∀ b ∈ String.utf8EncodeChar c, b.toNat ≠ 0x2E := by
  have hdot : c.toNat ≠ 0x2E := fun heq => by
    have hc : c = '.' := Char.toNat_inj.1 heq
    rw [hc] at h
    cases h
  intro b hb
  rw [Text.utf8EncodeChar_eq] at hb
  split at hb
  · rw [List.mem_singleton.1 hb, Text.toNat_ofNat_byte (by omega)]
    exact hdot
  · -- the bytes of any other character have their highest bit set
    have hhigh : ∀ n, 0x80 ≤ n → n < 256 → (UInt8.ofNat n).toNat ≠ 0x2E := fun n hlow hlt => by
      rw [Text.toNat_ofNat_byte hlt]
      omega
    split at hb
    · simp only [List.mem_cons, List.not_mem_nil, or_false] at hb
      rcases hb with rfl | rfl <;> exact hhigh _ (by omega) (by omega)
    · split at hb
      · simp only [List.mem_cons, List.not_mem_nil, or_false] at hb
        rcases hb with rfl | rfl | rfl <;> exact hhigh _ (by omega) (by omega)
      · simp only [List.mem_cons, List.not_mem_nil, or_false] at hb
        rcases hb with rfl | rfl | rfl | rfl <;> exact hhigh _ (by omega) (by omega)

/-- The only escape in a dot segment is that of a dot. -/
theorem dot_of_escape {b : UInt8} (hdots : isSingleDot t = true ∨ isDoubleDot t = true)
    (hin : percentEncodeByte b <:+: t) : b.toNat = 0x2E := by
  have hlower : ['%', (Text.upperHexDigit (b.toNat / 16)).toLower, (Text.upperHexDigit (b.toNat % 16)).toLower] <:+:
      t.map Char.toLower := hin.map Char.toLower
  have hdigits : ∀ n, n < 16 → ((Text.upperHexDigit n).toLower = '2' → n = 2) ∧
      ((Text.upperHexDigit n).toLower = 'e' → n = 14) := by decide
  have hlt : b.toNat < 256 := b.toNat_lt
  suffices h : (Text.upperHexDigit (b.toNat / 16)).toLower = '2' ∧
      (Text.upperHexDigit (b.toNat % 16)).toLower = 'e' by
    have hhigh := (hdigits _ (by omega)).1 h.1
    have hlow := (hdigits _ (by omega)).2 h.2
    omega
  have hmem : t.map Char.toLower ∈ [".".toList, "%2e".toList, "..".toList, ".%2e".toList, "%2e.".toList,
      "%2e%2e".toList] := by
    rcases hdots with h | h
    · exact List.mem_append_left _ (of_decide_eq_true h)
    · exact List.mem_append_right [".".toList, "%2e".toList] (of_decide_eq_true h)
  generalize t.map Char.toLower = u at hlower hmem
  simp only [List.mem_cons, List.not_mem_nil, or_false] at hmem
  rcases hmem with rfl | rfl | rfl | rfl | rfl | rfl <;>
    simp_all [List.infix_cons_iff, List.cons_prefix_cons]

theorem encode_of_keep (h : ∀ c ∈ segment, pathSet c = false) : encode segment = segment := by
  induction segment with
  | nil => rfl
  | cons c segment ih =>
    have hkeep : percentEncodeChar pathSet c = [c] := if_neg (by simp [h c (List.mem_cons_self ..)])
    rw [encode, List.flatMap_cons, hkeep, List.singleton_append]
    exact congrArg (c :: ·) (ih fun d hd => h d (List.mem_cons_of_mem _ hd))

theorem pathSet_of_toLower (h : c.toLower ∈ ['.', '%', '2', 'e']) : pathSet c = false := by
  unfold Char.toLower at h
  split at h
  · next hupper =>
    have hmarks : ∀ d ∈ [' ', '"', '#', '<', '>', '?', '^', '\x60', '\x7b', '\x7d'],
        ¬ (d.val ≥ 'A'.val ∧ d.val ≤ 'Z'.val) := by decide
    have hrange : 65 ≤ c.toNat ∧ c.toNat ≤ 90 := hupper
    refine eq_false_of_ne_true fun hset => ?_
    simp only [pathSet, querySet, c0ControlSet, Bool.or_eq_true, decide_eq_true_eq] at hset
    rcases hset with (hcontrol | hmark) | hmark
    · omega
    · exact hmarks c (List.mem_append_left ['?', '^', '\x60', '\x7b', '\x7d'] hmark) hupper
    · exact hmarks c (List.mem_append_right [' ', '"', '#', '<', '>'] hmark) hupper
  · have hall : ∀ c ∈ ['.', '%', '2', 'e'], pathSet c = false := by decide
    exact hall c h

/-- Encoding makes no dot segments and takes none away. -/
theorem dots_encode (segment : Text) :
    isSingleDot (encode segment) = isSingleDot segment ∧ isDoubleDot (encode segment) = isDoubleDot segment := by
  by_cases hkeep : ∀ c ∈ segment, pathSet c = false
  · rw [encode_of_keep hkeep]
    exact ⟨rfl, rfl⟩
  · obtain ⟨c, hc, hset⟩ := not_forall₂.1 hkeep
    have hset : pathSet c = true := by simpa using hset
    have hbefore : ¬ (isSingleDot segment = true ∨ isDoubleDot segment = true) := fun hdots => by
      have hlower : c.toLower ∈ segment.map Char.toLower := List.mem_map_of_mem hc
      have hchars : c.toLower ∈ ['.', '%', '2', 'e'] := by
        simp only [isSingleDot, isDoubleDot, decide_eq_true_eq, List.mem_cons, List.not_mem_nil, or_false] at hdots
        have hall : ∀ u ∈ [".".toList, "%2e".toList, "..".toList, ".%2e".toList, "%2e.".toList, "%2e%2e".toList],
            ∀ d ∈ u, d ∈ ['.', '%', '2', 'e'] := by decide
        refine hall (segment.map Char.toLower) ?_ _ hlower
        rcases hdots with (h | h) | h | h | h | h <;> rw [h] <;> simp
      rw [pathSet_of_toLower hchars] at hset
      cases hset
    have hafter : ¬ (isSingleDot (encode segment) = true ∨ isDoubleDot (encode segment) = true) := fun hdots => by
      obtain ⟨b, bytes, hbytes⟩ := List.exists_cons_of_ne_nil (String.utf8EncodeChar_ne_nil (c := c))
      have hin : percentEncodeByte b <:+: encode segment := by
        obtain ⟨before, after, rfl⟩ := List.append_of_mem hc
        refine ⟨encode before, bytes.flatMap percentEncodeByte ++ encode after, ?_⟩
        simp [encode, percentEncodeChar, hset, hbytes]
      exact ne_dot_of_pathSet hset b (by rw [hbytes]; exact List.mem_cons_self ..) (dot_of_escape hdots hin)
    rw [not_or, Bool.not_eq_true, Bool.not_eq_true] at hbefore hafter
    rw [hbefore.1, hbefore.2, hafter.1, hafter.2]
    exact ⟨rfl, rfl⟩

theorem encode_eq_nil : encode segment = [] ↔ segment = [] := by
  constructor
  · intro h
    cases segment with
    | nil => rfl
    | cons c segment =>
      rw [encode, List.flatMap_cons] at h
      have hc : percentEncodeChar pathSet c = [] := (List.append_eq_nil_iff.1 h).1
      unfold percentEncodeChar at hc
      split at hc
      · obtain ⟨b, bytes, hbytes⟩ := List.exists_cons_of_ne_nil (String.utf8EncodeChar_ne_nil (c := c))
        rw [hbytes] at hc
        cases hc
      · cases hc
  · rintro rfl
    rfl

/-! ## The path by its segments -/

/-- The text up to the query or the fragment. -/
def pathPart (t : Text) : Text := t.takeWhile fun c => c ≠ '?' && c ≠ '#'

/-- The path after the segments, the last of which no slash ends. -/
def walk (path : List Text) : List Text → List Text
  | [] => path
  | [segment] => endSegment path (encode segment) false
  | segment :: next :: segments => walk (endSegment path (encode segment) true) (next :: segments)

theorem walk_cons {segments : List Text} (h : segments ≠ []) :
    walk path (segment :: segments) = walk (endSegment path (encode segment) true) segments := by
  cases segments with
  | nil => exact absurd rfl h
  | cons next segments => rfl

/-- Where no backslash stands, the parser goes through the pieces between the slashes. -/
theorem path_pathState (hslash : '\\' ∉ t) (hsegment : '/' ∉ segment) :
    (pathState path (encode segment) t).path = walk path (Path.pieces (segment ++ pathPart t)) := by
  induction t generalizing path segment with
  | nil => rw [show pathPart [] = [] from rfl, List.append_nil, Path.pieces_name hsegment]; rfl
  | cons c t ih =>
    obtain ⟨hc, ht⟩ : '\\' ≠ c ∧ '\\' ∉ t := by simpa using hslash
    rw [pathState]
    split
    · next hend =>
      have hc : c = '/' := by
        simpa [isSlash, Ne.symm hc] using hend
      have hpart : pathPart (c :: t) = '/' :: pathPart t := by rw [hc]; rfl
      rw [hpart, Path.pieces_append hsegment, walk_cons (Path.pieces_ne_nil _)]
      exact ih ht List.not_mem_nil
    · next hnot =>
      split
      · next hmark =>
        rw [show pathPart (c :: t) = [] by rw [hmark]; rfl, List.append_nil, Path.pieces_name hsegment]
        rfl
      · split
        · next hmark =>
          rw [show pathPart (c :: t) = [] by rw [hmark]; rfl, List.append_nil, Path.pieces_name hsegment]
          rfl
        · next hquery hfragment =>
          have hpart : pathPart (c :: t) = c :: pathPart t := by
            simp [pathPart, hquery, hfragment]
          have hencode : encode segment ++ percentEncodeChar pathSet c = encode (segment ++ [c]) := by
            simp [encode]
          rw [hpart, hencode, ih ht ?_, List.append_assoc]
          · rfl
          · rw [List.mem_append, List.mem_singleton, not_or]
            exact ⟨hsegment, fun heq => hnot (by rw [← heq]; rfl)⟩

/-- How many segments deep the segments lead from a depth. -/
def depth : Nat → List Text → Nat
  | k, [] => k
  | k, segment :: segments =>
    depth (if isDoubleDot segment then k - 1 else if isSingleDot segment then k else k + 1) segments

/-- An empty segment, not the last, stands on the root, and those behind it do not climb over it. -/
def Doubled (k : Nat) (segments : List Text) : Prop := ∃ before after, segments = before ++ [] :: after ∧ after ≠ [] ∧
  depth k before = 0 ∧ ∀ n, 0 < depth 1 (after.take n)

theorem length_endSegment : (endSegment path (encode segment) true).length =
    if isDoubleDot segment then path.length - 1 else if isSingleDot segment then path.length else path.length + 1 := by
  rw [endSegment, (dots_encode segment).1, (dots_encode segment).2]
  split
  · exact List.length_dropLast
  · split
    · rfl
    · exact List.length_append

theorem depth_cons {segments : List Text} : depth path.length (segment :: segments) =
    depth (endSegment path (encode segment) true).length segments := by
  rw [depth, length_endSegment]

/-- What comes out begins with an empty segment followed by another. -/
def StartsDoubled (path : List Text) : Prop := ∃ next rest, path = [] :: next :: rest

theorem startsDoubled_concat : StartsDoubled (path ++ [segment]) ↔ path.head? = some [] := by
  cases path with
  | nil => simp [StartsDoubled]
  | cons first path => cases path <;> simp [StartsDoubled]

theorem startsDoubled_last : StartsDoubled (endSegment path (encode segment) false) ↔
    path.head? = some [] ∧ 0 < (endSegment path (encode segment) true).length := by
  have hpos : path.head? = some [] → 0 < path.length := fun h => by
    cases path with
    | nil => cases h
    | cons first path => simp
  rw [length_endSegment, endSegment, (dots_encode segment).1, (dots_encode segment).2]
  split
  · rw [if_neg (by simp), startsDoubled_concat]
    cases path with
    | nil => simp
    | cons first path => cases path <;> simp
  · split
    · rw [if_neg (by simp), startsDoubled_concat]
      exact ⟨fun h => ⟨h, hpos h⟩, And.left⟩
    · rw [startsDoubled_concat]
      exact ⟨fun h => ⟨h, by omega⟩, And.left⟩

/-- The segment at the bottom stays there, or is the first to come on the root. -/
theorem head_endSegment : (endSegment path (encode segment) true).head? = some [] ↔
    (path.head? = some [] ∧ 0 < (endSegment path (encode segment) true).length) ∨ path = [] ∧ segment = [] := by
  rw [length_endSegment, endSegment, (dots_encode segment).1, (dots_encode segment).2]
  have hdots : segment = [] → isDoubleDot segment = false ∧ isSingleDot segment = false := by
    rintro rfl
    exact ⟨rfl, rfl⟩
  split
  · next hdouble =>
    have hne : segment ≠ [] := fun hnil => by rw [(hdots hnil).1] at hdouble; cases hdouble
    cases path with
    | nil => simp [hne]
    | cons first path => cases path <;> simp
  · split
    · next hsingle =>
      have hne : segment ≠ [] := fun hnil => by rw [(hdots hnil).2] at hsingle; cases hsingle
      cases path with
      | nil => simp [hne]
      | cons first path => simp
    · cases path with
      | nil => simp [encode_eq_nil]
      | cons first path => simp

theorem doubled_cons {k : Nat} {segments : List Text} : Doubled k (segment :: segments) ↔
    (k = 0 ∧ segment = [] ∧ segments ≠ [] ∧ ∀ n, 0 < depth 1 (segments.take n)) ∨
      Doubled (depth k [segment]) segments := by
  constructor
  · rintro ⟨before, after, hsegments, hafter, hroot, hstay⟩
    cases before with
    | nil =>
      obtain ⟨rfl, rfl⟩ := List.cons.inj hsegments
      exact .inl ⟨hroot, rfl, hafter, hstay⟩
    | cons first before =>
      obtain ⟨rfl, rfl⟩ := List.cons.inj hsegments
      exact .inr ⟨before, after, rfl, hafter, hroot, hstay⟩
  · rintro (⟨rfl, rfl, hsegments, hstay⟩ | ⟨before, after, rfl, hafter, hroot, hstay⟩)
    · exact ⟨[], segments, rfl, hsegments, rfl, hstay⟩
    · exact ⟨segment :: before, after, rfl, hafter, hroot, hstay⟩

/-- The parser leaves an empty segment at the start of the path, before another, in two ways: it was there and the
segments do not climb over it, or they put it there. -/
theorem startsDoubled_walk {segments : List Text} (h : segments ≠ []) : StartsDoubled (walk path segments) ↔
    (path.head? = some [] ∧ ∀ n, 0 < depth path.length (segments.take n)) ∨ Doubled path.length segments := by
  have hpos : ∀ path : List Text, path.head? = some [] → 0 < path.length := fun path h => by
    cases path with
    | nil => cases h
    | cons first path => simp
  -- the depths along the segments: before the first, and those after it
  have hdepths : ∀ (path : List Text) (segment : Text) (segments : List Text), path.head? = some [] →
      ((∀ n, 0 < depth path.length ((segment :: segments).take n)) ↔
        ∀ n, 0 < depth (endSegment path (encode segment) true).length (segments.take n)) := by
    intro path segment segments hhead
    constructor
    · intro hall n
      have hn := hall (n + 1)
      rwa [List.take_succ_cons, depth_cons] at hn
    · intro hall n
      cases n with
      | zero => exact hpos path hhead
      | succ n =>
        rw [List.take_succ_cons, depth_cons]
        exact hall n
  have hself : ∀ (path : List Text) (segment : Text),
      depth path.length [segment] = (endSegment path (encode segment) true).length := fun path segment => depth_cons
  induction segments generalizing path with
  | nil => exact absurd rfl h
  | cons segment segments ih =>
    rw [doubled_cons, hself]
    cases segments with
    | nil =>
      have hnone : ¬ Doubled (endSegment path (encode segment) true).length [] := by
        rintro ⟨before, after, hsegments, -⟩
        cases before <;> cases hsegments
      rw [walk, startsDoubled_last]
      constructor
      · rintro ⟨hhead, hlen⟩
        refine .inl ⟨hhead, (hdepths path segment [] hhead).2 fun n => ?_⟩
        rw [List.take_nil]
        exact hlen
      · rintro (⟨hhead, hall⟩ | ⟨-, -, hne, -⟩ | hdoubled)
        · exact ⟨hhead, (hdepths path segment [] hhead).1 hall 0⟩
        · exact absurd rfl hne
        · exact absurd hdoubled hnone
    | cons next segments =>
      have hrest : StartsDoubled (walk (endSegment path (encode segment) true) (next :: segments)) ↔ _ :=
        ih (List.cons_ne_nil _ _)
      rw [walk_cons (List.cons_ne_nil _ _), hrest, head_endSegment]
      constructor
      · rintro (⟨⟨hhead, -⟩ | ⟨hpath, hsegment⟩, hall⟩ | hdoubled)
        · exact .inl ⟨hhead, (hdepths path segment _ hhead).2 hall⟩
        · refine .inr (.inl ⟨by rw [hpath]; rfl, hsegment, List.cons_ne_nil _ _, ?_⟩)
          rwa [hpath, hsegment] at hall
        · exact .inr (.inr hdoubled)
      · rintro (⟨hhead, hall⟩ | ⟨hlen, hsegment, -, hall⟩ | hdoubled)
        · have hlater := (hdepths path segment _ hhead).1 hall
          exact .inl ⟨.inl ⟨hhead, hlater 0⟩, hlater⟩
        · have hpath := List.length_eq_zero_iff.1 hlen
          refine .inl ⟨.inr ⟨hpath, hsegment⟩, ?_⟩
          rwa [hpath, hsegment]
        · exact .inr hdoubled

/-- A reference to a path is written back as one that names an authority, exactly where an empty segment is put on the
root and not climbed over. -/
theorem path_doubled (h : '\\' ∉ t) :
    StartsDoubled (pathState [] [] t).path ↔ Doubled 0 (Path.pieces (pathPart t)) := by
  have hpath : (pathState [] (encode []) t).path = walk [] (Path.pieces ([] ++ pathPart t)) :=
    path_pathState h List.not_mem_nil
  change (pathState [] [] t).path = walk [] (Path.pieces (pathPart t)) at hpath
  rw [hpath, startsDoubled_walk (Path.pieces_ne_nil _)]
  simp

example : StartsDoubled (pathState [] [] "x/%2E././/evil".toList).path := ⟨_, _, rfl⟩

/-! ## Reading the text again -/

theorem clean_of_visible (h : ∀ c ∈ t, 0x20 < c.toNat) : clean t = t := by
  have hdrop : ∀ u : Text, (∀ c ∈ u, 0x20 < c.toNat) → (u.dropWhile fun c => c.toNat ≤ 0x20) = u := by
    intro u hu
    cases u with
    | nil => rfl
    | cons c u =>
      have hc := hu c (List.mem_cons_self ..)
      exact List.dropWhile_cons_of_neg (by simpa using hc)
  have hrev : ∀ c ∈ t.reverse, 0x20 < c.toNat := fun c hc => h c (List.mem_reverse.1 hc)
  rw [clean, hdrop t h, hdrop _ hrev, List.reverse_reverse]
  refine List.filter_eq_self.2 fun c hc => ?_
  have hvisible := h c hc
  have hne : ∀ d : Char, d.toNat ≤ 0x20 → c ≠ d := fun d hd heq => by rw [heq] at hvisible; omega
  simp [hne '\t' (by decide), hne '\n' (by decide), hne '\r' (by decide)]

variable {url : UrlTail}

theorem text_eq (url : UrlTail) {first : Text} {rest : List Text} (h : url.path = first :: rest) :
    url.text = '/' :: (first ++ (rest.flatMap ('/' :: ·) ++ (url.search ++ url.hash))) := by
  simp [UrlTail.text, UrlTail.pathname, h]

theorem head_behind (url : UrlTail) : ∀ c, (url.search ++ url.hash).head? = some c → isSlash c = false := by
  have hhash : ∀ c, url.hash.head? = some c → isSlash c = false := by
    intro c hc
    unfold UrlTail.hash at hc
    split at hc
    · cases hc
    · cases hc
    · cases hc; rfl
  intro c hc
  unfold UrlTail.search at hc
  split at hc
  · exact hhash c hc
  · exact hhash c hc
  · cases hc; rfl

/-- The text starts with a slash, which another follows exactly if the path begins with an empty segment and goes on. -/
theorem Written.head (h : Written url) : ∃ rest, url.text = '/' :: rest ∧
    ((∃ c, rest.head? = some c ∧ isSlash c = true) ↔ StartsDoubled url.path) := by
  obtain ⟨first, segments, hpath⟩ := List.exists_cons_of_ne_nil h.nonempty
  refine ⟨_, text_eq url hpath, ?_⟩
  rw [hpath]
  cases first with
  | cons c first =>
    have hplain := h.path (c :: first) (by rw [hpath]; exact List.mem_cons_self ..) c (List.mem_cons_self ..)
    constructor
    · rintro ⟨d, hd, hslash⟩
      cases hd
      rw [hplain.2.2] at hslash
      cases hslash
    · rintro ⟨next, rest, heq⟩
      cases heq
  | nil =>
    cases segments with
    | nil =>
      constructor
      · rintro ⟨d, hd, hslash⟩
        rw [head_behind url d hd] at hslash
        cases hslash
      · rintro ⟨next, rest, heq⟩
        cases heq
    | cons next segments => exact ⟨fun _ => ⟨next, segments, rfl⟩, fun _ => ⟨'/', rfl, rfl⟩⟩

theorem Written.visible (h : Written url) : ∀ c ∈ url.text, 0x20 < c.toNat := by
  intro c hc
  simp only [UrlTail.text, List.mem_append] at hc
  rcases hc with (hc | hc) | hc
  · obtain ⟨segment, hsegment, hc⟩ := List.mem_flatMap.1 hc
    rcases List.mem_cons.1 hc with rfl | hc
    · decide
    · exact (h.path segment hsegment c hc).1
  · unfold UrlTail.search at hc
    split at hc
    · cases hc
    · cases hc
    · next query hquery =>
      rcases List.mem_cons.1 hc with rfl | hc
      · decide
      · exact (h.query _ hquery c hc).1
  · unfold UrlTail.hash at hc
    split at hc
    · cases hc
    · cases hc
    · next fragment hfragment =>
      rcases List.mem_cons.1 hc with rfl | hc
      · decide
      · exact (h.fragment _ hfragment c hc).1

section
variable {rest : Text} (h : ∀ c ∈ '/' :: rest, 0x20 < c.toNat)
include h

/-- Visible characters behind one slash are a path of the base. -/
theorem parse_path (hhead : ∀ c, rest.head? = some c → isSlash c = false) :
    parse ('/' :: rest) = .path (pathState [] [] rest) := by
  rw [parse, clean_of_visible h]
  cases rest with
  | nil => rfl
  | cons d more =>
    have hd := hhead d rfl
    simp [hd, show isSlash '/' = true from rfl]

theorem parse_not_path {c : Char} (hhead : rest.head? = some c) (hslash : isSlash c = true) (url : UrlTail) :
    parse ('/' :: rest) ≠ .path url := by
  obtain ⟨more, rfl⟩ := List.head?_eq_some_iff.1 hhead
  rw [parse, clean_of_visible h]
  simp [hslash, show isSlash '/' = true from rfl]

end

end UrlReference

end Zedspaces.Lib
