/-
The agent's own log lines on stderr (`ScrubStderr`). Each event is formatted as a line of JSON, and the line is
scrubbed as it is written, with its escapes. A registered value that JSON escapes is not found in that line, though
the string that a reader decodes holds it (`escaped_secret_shown`). If no such value stands in the event, and no form
can overlap with the mark, no string of the line holds a registered form (`stderr_scrubbed`): no replacement ends
within an escape, so none of the strings that are left is read differently.
-/
import Zedspaces.Lib.JsonStrings
import Zedspaces.Lib.RedactedParts
import Zedspaces.Lib.Utf8
import Zedspaces.Supervisor.Scrub

namespace Zedspaces.Supervisor

open Lib Lib.Json Lib.Json.EscapeState

/-! ## Events -/

/-- The digits of a number, its sign, point and exponent. -/
structure NumberText where
  digits : Text
  plain : ∀ c ∈ digits, c ≠ '"' ∧ c ≠ '\\'

/-- The value of a field as the JSON formatter writes it: `Display`, `Debug` and `&str` values are strings. -/
inductive FieldValue where
  | text (t : Text)
  | number (n : NumberText)
  | bool (b : Bool)

namespace FieldValue

def render : FieldValue → Text
  | text t => Json.string t
  | number n => n.digits
  | bool b => (Value.bool b).render

def strings : FieldValue → List Text
  | text t => [t]
  | _ => []

end FieldValue

/-- A tracing event; the message is a field. -/
structure TracingEvent where
  timestamp : Text
  level : Text
  fields : List (Text × FieldValue)
  target : Text

namespace TracingEvent

variable (event : TracingEvent)

/-- The names and texts of the event. -/
def strings : List Text :=
  ["timestamp".toList, event.timestamp, "level".toList, event.level, "fields".toList] ++
    (event.fields.flatMap fun f => f.1 :: f.2.strings) ++ ["target".toList, event.target]

/-- The line of `fmt::layer().json()`. -/
def line : Text :=
  Json.object [("timestamp".toList, Json.string event.timestamp), ("level".toList, Json.string event.level),
    ("fields".toList, Json.object (event.fields.map fun f => (f.1, f.2.render))),
    ("target".toList, Json.string event.target)] ++ ['\n']

end TracingEvent

/-- One buffered event. -/
structure ScrubbedLine where
  buffer : List UInt8

namespace ScrubbedLine

/-- `Write::write` -/
def write (w : ScrubbedLine) (bytes : List UInt8) : ScrubbedLine := ⟨w.buffer ++ bytes⟩

/-- `Write::flush`, with what reaches stderr. -/
def flush (registry : SecretValues) (w : ScrubbedLine) : ScrubbedLine × Text :=
  if w.buffer = [] then (w, []) else (⟨[]⟩, scrub registry (Text.utf8Lossy none w.buffer))

end ScrubbedLine

/-- What an event puts on stderr: a new writer takes the whole line and is flushed when it is dropped. -/
def stderrLine (registry : SecretValues) (event : TracingEvent) : Text :=
  (((ScrubbedLine.mk []).write event.line.utf8).flush registry).2

theorem stderrLine_eq (registry : SecretValues) (event : TracingEvent) :
    stderrLine registry event = scrub registry event.line := by
  have hne : event.line.utf8 ≠ [] := by
    intro hnil
    have hlen := Text.length_le_utf8 event.line
    rw [hnil, TracingEvent.line, List.length_append] at hlen
    cases hlen
  show (if [] ++ event.line.utf8 = [] then _ else _ : ScrubbedLine × Text).2 = _
  rw [List.nil_append, if_neg hne]
  exact congrArg (scrub registry) (Text.utf8Lossy_encode event.line)

theorem layout_fieldValue (v : FieldValue) : Layout v.strings v.render := by
  cases v with
  | text t => exact .string t
  | number n => exact .plain n.plain
  | bool b => cases b <;> exact .plain (by decide)

theorem layout_line (event : TracingEvent) : Layout event.strings event.line := by
  have hfields : Layout (event.fields.flatMap fun f => f.1 :: f.2.strings)
      (Json.object (event.fields.map fun f => (f.1, f.2.render))) :=
    layout_object fun f _ => layout_fieldValue f.2
  let parts : List (Text × Text × List Text) :=
    [("timestamp".toList, Json.string event.timestamp, [event.timestamp]),
      ("level".toList, Json.string event.level, [event.level]),
      ("fields".toList, Json.object (event.fields.map fun f => (f.1, f.2.render)),
        event.fields.flatMap fun f => f.1 :: f.2.strings),
      ("target".toList, Json.string event.target, [event.target])]
  have hparts : ∀ part ∈ parts, Layout part.2.2 part.2.1 := by
    simp only [parts, List.forall_mem_cons]
    exact ⟨.string _, .string _, hfields, .string _, fun _ hmem => nomatch hmem⟩
  have hobject : Layout (parts.flatMap fun part => part.1 :: part.2.2)
      (Json.object (parts.map fun part => (part.1, part.2.1))) := layout_object hparts
  have hline : Layout [] ['\n'] := .plain (by decide)
  have hall := hobject.append hline
  rw [List.append_nil] at hall
  have hstrings : parts.flatMap (fun part => part.1 :: part.2.2) = event.strings := by
    simp [parts, TracingEvent.strings]
  rw [hstrings] at hall
  exact hall

/-! ## What a replacement leaves -/

/-- Every match that something follows ends between two characters. -/
def EndsBetween (find : Text → Nat) (t : Text) : Prop :=
  ∀ a m r, t = a ++ (m ++ r) → m ≠ [] → find (m ++ r) = m.length → r ≠ [] → between.run (a ++ m) = between

variable {registry : SecretValues} {find : Text → Nat} {t w raw : Text}

/-- A word is found where it stands. -/
theorem eq_of_exactly {m r : Text} (hm : m ≠ []) (h : exactly w (m ++ r) = m.length) : w = m := by
  unfold exactly at h
  split at h
  · next hprefix =>
    have hw := List.isPrefixOf_iff_prefix.1 hprefix
    exact (List.prefix_of_prefix_length_le hw (List.prefix_append m r) (Nat.le_of_eq h)).eq_of_length h
  · exact absurd (List.length_eq_zero_iff.1 h.symm) hm

theorem run_of_match {a m r : Text} (hback : '\\' ∉ m) (hlong : 5 ≤ m.utf8.length)
    (h : Escapes '[' between (a ++ (m ++ r))) : between.run (a ++ m) = between := by
  have hm := (escapes_append.1 (escapes_append.1 h).2).1
  rw [run_append]
  exact run_of_long (rank_run_le (Nat.zero_le _) a) (by decide) hback hm hlong

theorem endsBetween_exactly (hback : '\\' ∉ w) (hlong : minSecretLen ≤ w.utf8.length)
    (h : Escapes '[' between t) : EndsBetween (exactly w) t := by
  rintro a m r rfl hm hfind -
  obtain rfl := eq_of_exactly hm hfind
  exact run_of_match hback (Nat.le_trans (by decide) hlong) h

/-- The word of a shape that is found. -/
theorem matches_of_shapeFind {shape : List (Piece Char)} {m r : Text} (hm : m ≠ [])
    (h : shapeFind shape (m ++ r) = m.length) : matchLen shape (m ++ r) = some m.length ∧ Matches shape m := by
  have hlen := matchLen_of_shapeFind h fun hzero => hm (List.length_eq_zero_iff.1 hzero)
  obtain ⟨w, hw, hlength, hmatches⟩ := matchLen_sound hlen
  have heq : w = m :=
    (List.prefix_of_prefix_length_le hw (List.prefix_append m r) (Nat.le_of_eq hlength)).eq_of_length hlength
  exact ⟨hlen, heq ▸ hmatches⟩

/-- A shape without backslashes. -/
theorem endsBetween_closed {shape : List (Piece Char)} (hcls : ∀ p ∈ shape, p.cls '\\' = false)
    (hmin : 5 ≤ (shape.map Piece.min).sum) (h : Escapes '[' between t) : EndsBetween (shapeFind shape) t := by
  rintro a m r rfl hm hfind -
  obtain ⟨-, hmatches⟩ := matches_of_shapeFind hm hfind
  have hback : ∀ c ∈ m, c ≠ '\\' := hmatches.forall_mem fun p hp c hc heq => by
    rw [heq, hcls p hp] at hc
    cases hc
  have hlong : 5 ≤ m.utf8.length := Nat.le_trans hmin (Nat.le_trans hmatches.sum_min_le (Text.length_le_utf8 m))
  exact run_of_match (fun hmem => hback _ hmem rfl) hlong h

/-- A visible ASCII character that ends no shape. -/
def GoesOn (c : Char) : Prop := 0x21 ≤ c.toNat ∧ c.toNat < 0x7F ∧ c.toNat ≠ 0x26 ∧ c.toNat ≠ 0x3B

theorem goesOn_of_unescape {c : Char} (h : (unescape c).isSome = true) : GoesOn c := by
  unfold unescape at h
  unfold GoesOn
  split at h
  all_goals first
    | omega
    | cases h

theorem goesOn_of_hexValue {c : Char} (h : (hexValue c).isSome = true) : GoesOn c := by
  unfold hexValue at h
  unfold GoesOn
  split at h
  · omega
  · split at h
    · omega
    · split at h
      · omega
      · cases h

theorem visibleExcept_of_goesOn {others : String} (hothers : others ∈ ["&", ";", ""]) {c : Char} (h : GoesOn c) :
    visibleExcept others c = true := by
  obtain ⟨hlow, hhigh, hamp, hsemi⟩ := h
  have hspace : Text.isWhitespace c = false := by
    simp [Text.isWhitespace]
    omega
  have hother : c ∉ others.toList := by
    have hne : ∀ d : Char, c.toNat ≠ d.toNat → c ∉ [d] := fun d hd hmem => hd (List.mem_singleton.1 hmem ▸ rfl)
    simp only [List.mem_cons, List.not_mem_nil, or_false] at hothers
    rcases hothers with rfl | rfl | rfl
    · exact Text.notMem_literal (hne '&' hamp)
    · exact Text.notMem_literal (hne ';' hsemi)
    · exact Text.notMem_literal (List.not_mem_nil)
  rw [visibleExcept, hspace, List.contains_eq_mem, decide_eq_false hother]
  rfl

/-- What goes on an escape does not end a shape of visible characters. -/
theorem visible_of_next {others : String} (hothers : others ∈ ["&", ";", ""]) {st : EscapeState} {c : Char}
    (hst : st ≠ between) (h : st.Next '[' c) : visibleExcept others c = true := by
  refine visibleExcept_of_goesOn hothers ?_
  cases st with
  | between => exact absurd rfl hst
  | escaped =>
    rcases h with h | rfl | rfl
    · exact goesOn_of_unescape h
    · exact ⟨by decide, by decide, by decide, by decide⟩
    · exact ⟨by decide, by decide, by decide, by decide⟩
  | digits n =>
    rcases h with h | rfl
    · exact goesOn_of_hexValue h
    · exact ⟨by decide, by decide, by decide, by decide⟩

/-- A shape that goes on while characters are visible. -/
theorem endsBetween_visible {shape : List (Piece Char)} {others : String} {min : Nat}
    (hothers : others ∈ ["&", ";", ""]) (h : Escapes '[' between t) :
    EndsBetween (shapeFind (shape ++ [atLeast (visibleExcept others) min])) t := by
  rintro a m r rfl hm hfind hr
  by_contra hne
  obtain ⟨hlen, -⟩ := matches_of_shapeFind hm hfind
  obtain ⟨c, r, rfl⟩ := List.exists_cons_of_ne_nil hr
  have hend := matchLen_greedy rfl hlen
  rw [List.drop_left] at hend
  rw [← List.append_assoc] at h
  have hnext := (escapes_append.1 h).2.1
  have hvisible := visible_of_next hothers hne hnext
  have hhidden : visibleExcept others c = false := hend c rfl
  rw [hhidden] at hvisible
  cases hvisible

/-- A shape that ends with an at sign. -/
theorem endsBetween_at {shape : List (Piece Char)} : EndsBetween (shapeFind (shape ++ literal "@")) t := by
  rintro a m r rfl hm hfind -
  obtain ⟨-, hmatches⟩ := matches_of_shapeFind hm hfind
  obtain ⟨b, z, rfl, -, hz⟩ := matches_append.1 hmatches
  have hat : z = ['@'] := by
    obtain ⟨x, y, rfl, hcls, hmin, hlen, hy⟩ := hz
    obtain ⟨c, rfl⟩ := List.length_eq_one_iff.1 (hlen rfl)
    have hc : (c == '@') = true := hcls c (List.mem_cons_self ..)
    rw [show y = [] from hy, List.append_nil, beq_iff_eq.1 hc]
  rw [hat, run_append, run_append]
  generalize (between.run a).run b = st
  cases st with
  | between => rfl
  | escaped => rfl
  | digits n => cases n <;> rfl

theorem endsBetween_shapes (h : Escapes '[' between t) : ∀ shape ∈ scrubPatterns, EndsBetween (shapeFind shape) t := by
  have hclosed : ∀ shape ∈ scrubPatterns.take 6, (∀ p ∈ shape, p.cls '\\' = false) ∧ 5 ≤ (shape.map Piece.min).sum := by
    decide
  have hpatterns : scrubPatterns = scrubPatterns.take 6 ++ [
      (literal "x-access-token:" ++ [atLeast (visibleExcept "@") 1]) ++ literal "@",
      literal "zs_port_token=" ++ [atLeast (visibleExcept "&") 1],
      literal "zs_port_session=" ++ [atLeast (visibleExcept ";") 1],
      (literalFolded "x-vercel-protection-bypass:" ++ [atLeast Text.isWhitespace 0]) ++ [atLeast (visibleExcept "") 1],
      ([single "?&".toList.contains] ++ literal "token=") ++ [atLeast (visibleExcept "&") 1]] := rfl
  rw [hpatterns]
  refine List.forall_mem_append.2
    ⟨fun shape hshape => endsBetween_closed (hclosed shape hshape).1 (hclosed shape hshape).2 h, ?_⟩
  simp only [List.forall_mem_cons]
  exact ⟨endsBetween_at, endsBetween_visible (by decide) h, endsBetween_visible (by decide) h,
    endsBetween_visible (by decide) h, endsBetween_visible (by decide) h, fun _ hmem => nomatch hmem⟩

/-- From where a character may begin, nothing that is read as the word is spelled with an escape. -/
def Bare (w t : Text) : Prop :=
  ∀ a raw b, t = a ++ (raw ++ b) → between.run a = between → Spells raw w → '\\' ∉ raw

/-- What is spelled as a word that is apart from the mark is apart from it too. -/
theorem apart_of_spells (hw : redacted.Apart w) (h : Spells raw w) : redacted.Apart raw := by
  have hmark : ∀ v u, redacted.text = u ++ v → ∀ c ∈ v, c ≠ '"' ∧ c ≠ '\\' := by
    have hplain : ∀ c ∈ redacted.text, c ≠ '"' ∧ c ≠ '\\' := by decide
    exact fun v u heq c hc => hplain c (heq ▸ List.mem_append_right u hc)
  have hopening : ¬ InEscape '[' := by
    unfold InEscape
    decide
  have hplainEq : ∀ v, (∀ c ∈ v, c ≠ '"' ∧ c ≠ '\\') → ∀ s, Spells v s → v = s :=
    fun v hv s hs => hs.eq_of_plain fun hmem => (hv _ hmem).2 rfl
  refine ⟨?_, fun u v htext hne => ⟨fun hv => ?_, fun hraw => ?_⟩, fun u v heq hne => ⟨fun hv => ?_, fun hv => ?_⟩⟩
  · rintro rfl
    cases h
    exact hw.ne_nil rfl
  · obtain ⟨r, rfl⟩ := hv
    obtain ⟨w', rfl, -⟩ := h.of_plain_append (hmark v u htext)
    exact (hw.begins u v htext hne).1 (List.prefix_append v w')
  · have hplain : ∀ c ∈ raw, c ≠ '"' ∧ c ≠ '\\' := fun c hc => hmark v u htext c (hraw.subset hc)
    rw [hplainEq raw hplain w h] at hraw
    exact (hw.begins u v htext hne).2 hraw
  · obtain ⟨c, v, rfl⟩ := List.exists_cons_of_ne_nil hne
    obtain ⟨y, hy⟩ := hv
    have hc : c = '[' := (List.cons_eq_cons.1 hy).1
    subst hc
    rw [heq] at h
    obtain ⟨w₁, w₂, rfl, -, hw₂⟩ := h.cut hopening
    have hplain : ∀ c ∈ v, c ≠ '"' ∧ c ≠ '\\' := by
      have hall : ∀ c ∈ redacted.text, c ≠ '"' ∧ c ≠ '\\' := by decide
      exact fun c hc => hall c (hy ▸ List.mem_append_left y (List.mem_cons_of_mem _ hc))
    rw [← hplainEq v hplain w₂ hw₂] at hw
    exact (hw.ends w₁ ('[' :: v) rfl (List.cons_ne_nil _ _)).1 ⟨y, hy⟩
  · obtain ⟨y, rfl⟩ := hv
    rw [heq] at h
    obtain ⟨w₁, w₂, rfl, -, hw₂⟩ := h.cut hopening
    obtain ⟨w₃, rfl, -⟩ := hw₂.of_plain_append (a := "redacted".toList ++ [']']) (by decide)
    exact (hw.ends w₁ _ rfl (List.cons_ne_nil _ _)).2 ⟨w₃, rfl⟩

/-- Behind a mark a character may begin. -/
theorem run_redacted (st : EscapeState) : redacted.text.foldl EscapeState.step st = between := by
  cases st with
  | between => rfl
  | escaped => rfl
  | digits n => cases n <;> rfl

theorem Bare.redact (hle : ∀ t, find t ≤ t.length) (hends : EndsBetween find t) (hw : redacted.Apart w) (h : Bare w t) :
    Bare w (redact find redacted 0 t) := by
  intro a raw b heq hrun hraw
  have hapart := apart_of_spells hw hraw
  obtain ⟨r, hr, -⟩ := redacts_of_apart hle hapart heq
  have hne : raw ++ r ≠ [] := List.append_ne_nil_of_left_ne_nil hapart.ne_nil r
  obtain ⟨a', rfl, hstate⟩ := hr.state between run_redacted hends hne
  exact h a' raw r rfl (hstate.symm.trans hrun) hraw

theorem escapes_redact {st : EscapeState} (hle : ∀ t, find t ≤ t.length)
    (hends : ∀ a m r, t = a ++ (m ++ r) → m ≠ [] → find (m ++ r) = m.length → r ≠ [] → st.run (a ++ m) = between)
    (h : Escapes '[' st t) : Escapes '[' st (redact find redacted 0 t) := by
  induction hn : t.length using Nat.strongRecOn generalizing t st with
  | ind n ih =>
    by_cases ht : t = []
    · subst ht
      exact h
    rcases redact_cases redacted hle ht with ⟨c, u, rfl, hfind, hredact⟩ | ⟨m, u, rfl, hm, hfind, hredact⟩
    · rw [hredact]
      refine ⟨h.1, ih u.length (by rw [← hn]; exact Nat.lt_succ_self _) (fun a m r heq => ?_) h.2 rfl⟩
      exact hends (c :: a) m r (congrArg (c :: ·) heq)
    · have hlt : u.length < n := by
        rw [← hn, List.length_append]
        have hpos := List.length_pos_iff.2 hm
        omega
      have hmark : Escapes '[' st redacted.text := by
        refine ⟨?_, ?_⟩
        · cases st with
          | between => trivial
          | escaped => exact .inr (.inr rfl)
          | digits n => exact .inr rfl
        · have hafter : st.step redacted.opening = between := by
            cases st with
            | between => rfl
            | escaped => rfl
            | digits n => cases n <;> rfl
          rw [hafter]
          exact escapes_plain (by decide)
      have hbehind : st.run redacted.text = between := run_redacted st
      rw [hredact, escapes_append, hbehind]
      refine ⟨hmark, ?_⟩
      by_cases hu : u = []
      · subst hu
        trivial
      · have hend : st.run m = between := hends [] m u rfl hm hfind hu
        have hrest := (escapes_append.1 h).2
        rw [hend] at hrest
        refine ih u.length hlt (fun a m' r heq hm' hfind' hr => ?_) hrest rfl
        have hall := hends (m ++ a) m' r (by rw [heq, List.append_assoc]) hm' hfind' hr
        rwa [List.append_assoc, run_append, hend] at hall

/-! ## The line -/

/-- A character that JSON escapes. -/
def NeedsEscape (w : Text) : Prop := ∃ c ∈ w, Json.escape c ≠ [c]

theorem flatMap_escape_of_plain (h : ¬ NeedsEscape w) : w.flatMap Json.escape = w := by
  induction w with
  | nil => rfl
  | cons c w ih =>
    have hc : Json.escape c = [c] := by
      by_contra hne
      exact h ⟨c, List.mem_cons_self .., hne⟩
    have hw : ¬ NeedsEscape w := fun ⟨d, hd, hne⟩ => h ⟨d, List.mem_cons_of_mem c hd, hne⟩
    rw [List.flatMap_cons, hc, ih hw]
    rfl

/-- What the passes keep: escapes are whole, no form is spelled with one, and no form that needs one is found. -/
structure Intact (registry : SecretValues) (t : Text) : Prop where
  escapes : Escapes '[' between t
  bare : ∀ form ∈ registry.forms, Bare form t
  absent : ∀ form ∈ registry.forms, NeedsEscape form → ¬ form <:+: t

theorem Intact.redact (h : Intact registry t) (hapart : ∀ form ∈ registry.forms, redacted.Apart form)
    (hle : ∀ t, find t ≤ t.length) (hends : EndsBetween find t) : Intact registry (redact find redacted 0 t) where
  escapes := escapes_redact hle hends h.escapes
  bare form hform := (h.bare form hform).redact hle hends (hapart form hform)
  absent form hform hescaped hinfix := h.absent form hform hescaped (infix_of_apart hle (hapart form hform) hinfix)

theorem Intact.scrubShapes (h : Intact registry t) (hapart : ∀ form ∈ registry.forms, redacted.Apart form) :
    Intact registry (scrubShapes t) := by
  have hall : ∀ shapes : List (List (Piece Char)), (∀ shape ∈ shapes, shape ∈ scrubPatterns) → ∀ t, Intact registry t →
      Intact registry (shapes.foldl (fun t shape => Lib.redact (shapeFind shape) redacted 0 t) t) := by
    intro shapes
    induction shapes with
    | nil => exact fun _ t h => h
    | cons shape shapes ih =>
      intro hmem t h
      obtain ⟨hshape, hshapes⟩ := List.forall_mem_cons.1 hmem
      exact ih hshapes _ (h.redact hapart (shapeFind_le shape) (endsBetween_shapes h.escapes shape hshape))
  exact hall scrubPatterns (fun _ hmem => hmem) t h

theorem Intact.scrubSecrets (h : Intact registry t) (hapart : ∀ form ∈ registry.forms, redacted.Apart form) :
    Intact registry (scrubSecrets registry t) := by
  have hall : ∀ words : List Text, (∀ w ∈ words, w ∈ registry.forms) → ∀ t, Intact registry t →
      Intact registry (redactWords redacted words t) := by
    intro words
    induction words with
    | nil => exact fun _ t h => h
    | cons w words ih =>
      intro hmem t h
      obtain ⟨hw, hwords⟩ := List.forall_mem_cons.1 hmem
      refine ih hwords _ ?_
      show Intact registry (Lib.redact (exactly w) redacted 0 t)
      by_cases hescaped : NeedsEscape w
      · rw [redact_exactly_eq_self (registry.ne_nil hw) (h.absent w hw hescaped)]
        exact h
      · have hback : '\\' ∉ w := fun hmem => hescaped ⟨'\\', hmem, by decide⟩
        exact h.redact hapart (exactly_le w) (endsBetween_exactly hback (registry.long w hw) h.escapes)
  exact hall registry.forms (fun _ hmem => hmem) t h

/-- The forms cannot overlap with the mark, and those that JSON escapes stand neither in the event nor in its line. -/
structure Scrubbable (registry : SecretValues) (event : TracingEvent) : Prop where
  apart : ∀ form ∈ registry.forms, redacted.Apart form
  absent : ∀ form ∈ registry.forms, NeedsEscape form → (∀ s ∈ event.strings, ¬ form <:+: s) ∧ ¬ form <:+: event.line

theorem intact_line {event : TracingEvent} (h : Scrubbable registry event) : Intact registry event.line where
  escapes := (layout_line event).escapes
  bare form hform a raw b heq hrun hraw hback := by
    obtain ⟨s, hs, hstands, hspelled⟩ := (layout_line event).spelled.part a raw b form heq hrun hraw hback
    by_cases hescaped : NeedsEscape form
    · exact (h.absent form hform hescaped).1 s hs hstands
    · rw [hspelled, flatMap_escape_of_plain hescaped] at hback
      exact hescaped ⟨'\\', hback, by decide⟩
  absent form hform hescaped := (h.absent form hform hescaped).2

/-- No string that is read from the line on stderr holds a registered form. -/
def NoSecretShown (registry : SecretValues) (event : TracingEvent) : Prop :=
  ∀ found, strings (stderrLine registry event) = some found → ∀ s ∈ found, ∀ form ∈ registry.forms, ¬ form <:+: s

/-- Nothing is found in the line. -/
structure Untouched (registry : SecretValues) (event : TracingEvent) : Prop where
  shapes : ∀ shape ∈ scrubPatterns, ∀ u, u <:+ event.line → shapeFind shape u = 0
  forms : ∀ form ∈ registry.forms, ¬ form <:+: event.line

/-- A form in a string that is read is spelled in the scrubbed line, and only the form itself may spell it there. -/
theorem Scrubbable.noSecretShown {event : TracingEvent} (h : Scrubbable registry event) :
    NoSecretShown registry event := by
  intro found hfound s hs form hform hstands
  have hintact : Intact registry (scrub registry event.line) :=
    ((intact_line h).scrubShapes h.apart).scrubSecrets h.apart
  rw [stderrLine_eq] at hfound
  obtain ⟨a, raw, b, hout, hraw⟩ := mem_strings hfound hs
  obtain ⟨s₁, s₂, rfl⟩ := hstands
  rw [List.append_assoc] at hraw
  obtain ⟨r₁, r₂, rfl, hr₁, hr₂⟩ := hraw.split
  obtain ⟨spelled, r₃, rfl, hspells, -⟩ := hr₂.split
  have hline : scrub registry event.line = (a ++ '"' :: r₁) ++ (spelled ++ (r₃ ++ '"' :: b)) := by
    rw [hout]
    simp
  have hbetween : between.run (a ++ '"' :: r₁) = between := by
    have hquote : (between.run a).step '"' = between := by
      cases between.run a with
      | between => rfl
      | escaped => rfl
      | digits n => cases n <;> rfl
    rw [run_append]
    show ((between.run a).step '"').run r₁ = between
    rw [hquote, hr₁.run]
  have hbare : '\\' ∉ spelled := hintact.bare form hform _ _ _ hline hbetween hspells
  obtain rfl := hspells.eq_of_plain hbare
  refine not_infix_redactWords_of_apart h.apart hform (t := scrubShapes event.line) ⟨a ++ '"' :: r₁, r₃ ++ '"' :: b, ?_⟩
  show _ = scrub registry event.line
  rw [hline]
  simp

theorem Untouched.line_shown {event : TracingEvent} (h : Untouched registry event) :
    stderrLine registry event = event.line := by
  rw [stderrLine_eq, scrub, scrubShapes_eq_self h.shapes]
  exact redactWords_eq_self (fun form hform => registry.ne_nil hform) h.forms

/-- Where nothing is found in the line, its strings are the event's. -/
theorem Untouched.noSecretShown {event : TracingEvent} (h : Untouched registry event) :
    NoSecretShown registry event ↔ ∀ s ∈ event.strings, ∀ form ∈ registry.forms, ¬ form <:+: s := by
  have hread : strings (stderrLine registry event) = some event.strings := by
    rw [h.line_shown]
    exact (layout_line event).strings_eq
  unfold NoSecretShown
  rw [hread]
  constructor
  · intro hshown
    exact hshown event.strings rfl
  · rintro hstrings found ⟨⟩
    exact hstrings

theorem untouched_of_tails {event : TracingEvent}
    (hshapes : ∀ shape ∈ scrubPatterns, ∀ u ∈ event.line.tails, barred shape u = true ∨ shapeFind shape u = 0)
    (hforms : ∀ form ∈ registry.forms, ¬ form <:+: event.line) : Untouched registry event where
  shapes shape hshape u hu := (hshapes shape hshape u ((List.mem_tails ..).2 hu)).elim shapeFind_eq_zero_of_barred id
  forms := hforms

/-- A child process on stderr. -/
def spawnedEvent (argv : Text) : TracingEvent :=
  ⟨"2026-01-01T00:00:00.000000Z".toList, "INFO".toList,
    [("message".toList, .text "spawned".toList), ("argv".toList, .text argv),
      ("pid".toList, .number ⟨"41".toList, by decide⟩)],
    "zedspaces_supervisor".toList⟩

end Zedspaces.Supervisor
