/-
The entries made of the lines the server prints (`logs.rs`). Only the message of a line is scrubbed: the module path
and the session id of a JSON record are shipped as they are (`server_entry_clean`). A scrubbed message holds no form
and no token unless a replacement has put one together: a form with characters of the marks, or a token prefix that
no token followed before. The prefixes are followed back through the passes to the message (`suffix_passes`).
-/
import Mathlib.Data.List.TakeWhile
import Zedspaces.Supervisor.Logs
import Zedspaces.Supervisor.Scrub

namespace Zedspaces.Supervisor

open Lib

/-! ## Entries -/

def maxMsgBytes : Nat := 8 * 1024

/-- `b2`'s record, as far as it is read. -/
structure ServeLogRecord where
  tsMs : Option Nat
  level : Option Nat
  modulePath : Option Text
  message : Option Text
  sessionId : Option Text
  epoch : Option Nat

def levelName (level : Nat) : String :=
  match level with
  | 1 => "error"
  | 2 => "warn"
  | 3 => "info"
  | 4 => "debug"
  | 5 => "trace"
  | _ => "info"

/-- The longest beginning of at most `max` bytes. -/
def floorCharBoundary : Nat → Text → Text
  | _, [] => []
  | max, c :: t => if c.utf8Size ≤ max then c :: floorCharBoundary (max - c.utf8Size) t else []

/-- `+N bytes` -/
def extraBytes (extra : Nat) : Text := '+' :: Nat.toDigits 10 extra ++ " bytes".toList

def truncateMsg (msg : Text) : Text :=
  if msg.utf8.length ≤ maxMsgBytes then msg
  else
    let cut := floorCharBoundary maxMsgBytes msg
    cut ++ '…' :: '[' :: extraBytes (msg.utf8.length - cut.utf8.length) ++ [']']

def trimEnd (t : Text) : Text := (t.reverse.dropWhile Text.isWhitespace).reverse

section
variable (fromStr : Text → Option ServeLogRecord) (registry : SecretValues)

/-- The record of a line that is one, and its message. -/
def serverRecord (line : Text) : Option (ServeLogRecord × Text) :=
  if (trimEnd line).head? = some '{' then
    (fromStr (trimEnd line)).bind fun record => record.message.map fun message => (record, message)
  else none

/-- The text that is scrubbed. -/
def serverMessage (line : Text) : Text :=
  match serverRecord fromStr line with
  | some (_, message) => message
  | none => trimEnd line

/-- The object's fields, in the order of their names. -/
def recordFields (record : ServeLogRecord) : List (Text × Json.Value) :=
  (record.epoch.map fun epoch => ("epoch".toList, Json.Value.number (Json.number epoch))).toList ++
    (record.sessionId.map fun sid => ("sid".toList, Json.Value.string sid)).toList

def recordSource (record : ServeLogRecord) : String :=
  match record.modulePath with
  | some module => if module ≠ [] then String.ofList ("server:".toList ++ module) else "server"
  | none => "server"

def entryFromServer (line : Text) (nowMs : Nat) : LogEntry :=
  match serverRecord fromStr line with
  | some (record, message) => {
      ts := record.tsMs.getD nowMs
      level := levelName (record.level.getD 3)
      source := recordSource record
      msg := truncateMsg (scrub registry message)
      fields := if recordFields record = [] then none else some (recordFields record) }
  | none => {
      ts := nowMs
      level := "info"
      source := "server"
      msg := truncateMsg (scrub registry (trimEnd line))
      fields := none }

/-- What the pump makes of a line of the server's; `truncated` if the line was cut. -/
def pumpServer (line : Text) (truncated : Bool) (nowMs : Nat) : LogEntry :=
  let entry := entryFromServer fromStr registry line nowMs
  if truncated then
    { entry with fields := some (entry.fields.getD [] ++ [("truncated".toList, Json.Value.bool true)]) }
  else entry

end

/-- The text of a scalar. -/
def scalarTexts : Json.Value → List Text
  | .string t => [t]
  | _ => []

/-- The texts of an entry: source, message, the names and the values of the fields. -/
def LogEntry.texts (entry : LogEntry) : List Text :=
  entry.source.toList :: entry.msg :: (entry.fields.getD []).flatMap fun f => f.1 :: scalarTexts f.2

/-- No registered form and no token shape. -/
def Clean (registry : SecretValues) (t : Text) : Prop :=
  (∀ form ∈ registry.forms, ¬ form <:+: t) ∧ ∀ shape ∈ scrubPatterns, ∀ u, u <:+ t → shapeFind shape u = 0

/-! ## The shapes -/

/-- The shapes whose words end where a class ends. -/
def closedShapes : List (List (Piece Char)) := scrubPatterns.take 6

/-- The shapes that a prefix announces, each with what may follow it. -/
def openShapes : List (List (Piece Char) × List (Piece Char)) := [
  (literal "x-access-token:", [atLeast (visibleExcept "@") 1] ++ literal "@"),
  (literal "zs_port_token=", [atLeast (visibleExcept "&") 1]),
  (literal "zs_port_session=", [atLeast (visibleExcept ";") 1]),
  (literalFolded "x-vercel-protection-bypass:", [atLeast Text.isWhitespace 0, atLeast (visibleExcept "") 1]),
  ([single "?&".toList.contains] ++ literal "token=", [atLeast (visibleExcept "&") 1])]

theorem scrubPatterns_eq : scrubPatterns = closedShapes ++ openShapes.map fun s => s.1 ++ s.2 := rfl

/-- The characters of a mark's body and of a truncation marker. -/
def markerTexts : List Text := ["redacted".toList, "[+0123456789 bytes]".toList]

/-- The words hold no bracket, and some character that the marks do not have. -/
def Alien (shape : List (Piece Char)) : Prop :=
  (∀ p ∈ shape, p.cls '[' = false ∧ p.cls ']' = false ∧ p.cls '…' = false) ∧
    ∀ t ∈ markerTexts, ∃ p ∈ shape, 0 < p.min ∧ ∀ c ∈ t, p.cls c = false

instance (shape : List (Piece Char)) : Decidable (Alien shape) := inferInstanceAs (Decidable (_ ∧ _))

theorem alien_closed : ∀ shape ∈ closedShapes, Alien shape := by decide

theorem alien_open : ∀ s ∈ openShapes, Alien s.1 := by decide

section
variable {shape pre tail : List (Piece Char)} {w p q t : Text} {c : Char}

theorem Alien.not_mem (h : Alien shape) (hw : Matches shape w) : '[' ∉ w ∧ ']' ∉ w ∧ '…' ∉ w := by
  have hmem := fun c (hc : c ∈ w) => hw.forall_mem (P := fun c => c ≠ '[' ∧ c ≠ ']' ∧ c ≠ '…')
    (fun p hp c hcls => by
      obtain ⟨hopening, hclosing, hdots⟩ := h.1 p hp
      refine ⟨?_, ?_, ?_⟩ <;> rintro rfl
      · exact Bool.false_ne_true (hopening.symm.trans hcls)
      · exact Bool.false_ne_true (hclosing.symm.trans hcls)
      · exact Bool.false_ne_true (hdots.symm.trans hcls)) c hc
  exact ⟨fun hc => (hmem _ hc).1 rfl, fun hc => (hmem _ hc).2.1 rfl, fun hc => (hmem _ hc).2.2 rfl⟩

/-- A word does not stand in a text of the marks' characters. -/
theorem Alien.not_infix (h : Alien shape) (hw : Matches shape w) (ht : t ∈ markerTexts) {u : Text}
    (hu : ∀ c ∈ u, c ∈ t) : ¬ w <:+: u := by
  intro hstands
  obtain ⟨p, hp, hmin, hcls⟩ := h.2 t ht
  obtain ⟨c, hc, hmatch⟩ := hw.exists_mem hp hmin
  rw [hcls c (hu c (hstands.subset hc))] at hmatch
  cases hmatch

theorem Alien.ne_nil (h : Alien shape) (hw : Matches shape w) : w ≠ [] := by
  rintro rfl
  exact h.not_infix hw (t := "redacted".toList) (by decide) (u := []) (by rintro _ ⟨⟩) (List.infix_refl _)

theorem Alien.foreign (h : Alien shape) (hw : Matches shape w) : redacted.Foreign w where
  free := ⟨(h.not_mem hw).1, (h.not_mem hw).2.1⟩
  outside := h.not_infix hw (t := "redacted".toList) (by decide) fun _ hc => hc
  ne_nil := h.ne_nil hw

theorem shapes_ne_nil : ∀ shape ∈ scrubPatterns, ∀ w, Matches shape w → w ≠ [] := by
  intro shape hshape w hw
  rw [scrubPatterns_eq] at hshape
  rcases List.mem_append.1 hshape with hshape | hshape
  · exact (alien_closed shape hshape).ne_nil hw
  · obtain ⟨s, hs, rfl⟩ := List.mem_map.1 hshape
    obtain ⟨a, b, rfl, ha, -⟩ := matches_append.1 hw
    exact List.append_ne_nil_of_left_ne_nil ((alien_open s hs).ne_nil ha) b

/-- A text is clean if no form and no word of a shape stands in it. -/
theorem clean_of_words {registry : SecretValues} (hforms : ∀ form ∈ registry.forms, ¬ form <:+: t)
    (hclosed : ∀ shape ∈ closedShapes, ∀ w, Matches shape w → ¬ w <:+: t)
    (hopen : ∀ s ∈ openShapes, ∀ p, Matches s.1 p → ¬ p <:+: t) : Clean registry t := by
  refine ⟨hforms, fun shape hshape u hu => ?_⟩
  refine (shapeFind_eq_zero (shapes_ne_nil shape hshape)).2 fun w hw hprefix => ?_
  have hstands : w <:+: t := hprefix.isInfix.trans hu.isInfix
  rw [scrubPatterns_eq] at hshape
  rcases List.mem_append.1 hshape with hshape | hshape
  · exact hclosed shape hshape w hw hstands
  · obtain ⟨s, hs, rfl⟩ := List.mem_map.1 hshape
    obtain ⟨a, b, rfl, ha, -⟩ := matches_append.1 hw
    exact hopen s hs a ha ((List.prefix_append a b).isInfix.trans hstands)

/-! ## What the passes leave -/

/-- The passes over some shapes, one after the other. -/
def passes (shapes : List (List (Piece Char))) (t : Text) : Text :=
  shapes.foldl (fun t shape => redact (shapeFind shape) redacted 0 t) t

theorem infix_passes (hw : redacted.Foreign w) {shapes : List (List (Piece Char))} (h : w <:+: passes shapes t) :
    w <:+: t := by
  induction shapes generalizing t with
  | nil => exact h
  | cons shape shapes ih => exact infix_of_infix_redact hw (ih h)

/-- A word of a closed shape is gone once its pass is over. -/
theorem not_infix_closed (hshape : shape ∈ closedShapes) (hw : Matches shape w) (registry : SecretValues) (t : Text) :
    ¬ w <:+: scrub registry t := by
  intro h
  have hforeign := (alien_closed shape hshape).foreign hw
  have hmem : shape ∈ scrubPatterns := by
    rw [scrubPatterns_eq]
    exact List.mem_append_left _ hshape
  obtain ⟨before, after, hsplit⟩ := List.append_of_mem hmem
  have hpasses : w <:+: passes after (redact (shapeFind shape) redacted 0 (passes before t)) := by
    have hshapes : w <:+: scrubShapes t := infix_redactWords hforeign h
    rw [scrubShapes, hsplit, List.foldl_append] at hshapes
    exact hshapes
  obtain ⟨u, -, hprefix, hzero⟩ := infix_redact hforeign (infix_passes hforeign hpasses)
  exact (shapeFind_eq_zero (shapes_ne_nil shape hmem)).1 hzero w hw (prefix_redact hforeign.free hprefix)

/-- A word of the shape stands at the beginning. -/
def StartsWith (shape : List (Piece Char)) (q : Text) : Prop := ∃ w, Matches shape w ∧ w <+: q

/-- Replacing leaves such a beginning, with marks in it or not. -/
def StartKept (tail : List (Piece Char)) (find : Text → Nat) : Prop :=
  ∀ q, StartsWith tail q → StartsWith tail (redact find redacted 0 q)

/-- What a text of the passes holds from a foreign word on comes from such a place of the message. -/
theorem suffix_passes (hp : redacted.Foreign p) {shapes : List (List (Piece Char))}
    (hkept : ∀ shape ∈ shapes, StartKept tail (shapeFind shape)) (h : p ++ q <:+ passes shapes t) :
    ∃ q₀, p ++ q₀ <:+ t ∧ (StartsWith tail q₀ → StartsWith tail q) := by
  induction shapes generalizing t with
  | nil => exact ⟨q, h, id⟩
  | cons shape shapes ih =>
    obtain ⟨hshape, hshapes⟩ := List.forall_mem_cons.1 hkept
    obtain ⟨q₁, hq₁, hstarts⟩ := ih hshapes h
    obtain ⟨u, hu, heq⟩ := suffix_redact hp (List.prefix_append p q₁) hq₁
    have hprefix : p <+: redact (shapeFind shape) redacted 0 u := heq ▸ List.prefix_append p q₁
    obtain ⟨q₀, rfl⟩ := prefix_redact hp.free hprefix
    rw [redact_append hp.free hprefix] at heq
    have hq : q₁ = redact (shapeFind shape) redacted 0 q₀ := List.append_cancel_left heq
    exact ⟨q₀, hu, fun h => hstarts (hq ▸ hshape q₀ h)⟩

/-! ## What may follow a prefix -/

theorem startsWith_some {cls : Char → Bool} : StartsWith [atLeast cls 1] q ↔ ∃ d r, q = d :: r ∧ cls d = true := by
  constructor
  · rintro ⟨w, ⟨a, b, rfl, hcls, hmin, -, hb⟩, rest, rfl⟩
    obtain ⟨d, a, rfl⟩ := List.exists_cons_of_ne_nil (List.ne_nil_of_length_pos (Nat.lt_of_lt_of_le Nat.one_pos hmin))
    exact ⟨d, a ++ b ++ rest, rfl, hcls d List.mem_cons_self⟩
  · rintro ⟨d, r, rfl, hd⟩
    refine ⟨[d], ⟨[d], [], rfl, ?_, Nat.le_refl _, by rintro ⟨⟩, rfl⟩, r, rfl⟩
    intro c hc
    rw [List.mem_singleton.1 hc]
    exact hd

theorem kept_some {cls : Char → Bool} (hcls : cls '[' = true) (find : Text → Nat) : StartKept [atLeast cls 1] find := by
  intro q h
  obtain ⟨d, r, rfl, hd⟩ := startsWith_some.1 h
  refine startsWith_some.2 ?_
  cases hfind : find (d :: r) with
  | zero => exact ⟨d, _, redact_cons_of_zero hfind, hd⟩
  | succ n => exact ⟨'[', _, redact_cons_of_succ hfind, hcls⟩

theorem startsWith_visible : StartsWith [atLeast Text.isWhitespace 0, atLeast (visibleExcept "") 1] q ↔
    ∃ c ∈ q, visibleExcept "" c = true := by
  have hvisible : ∀ c, visibleExcept "" c = true ↔ Text.isWhitespace c = false := by
    intro c
    simp [visibleExcept]
  constructor
  · rintro ⟨w, hw, rest, rfl⟩
    obtain ⟨c, hc, hcls⟩ := hw.exists_mem (p := atLeast (visibleExcept "") 1) (by simp) Nat.one_pos
    exact ⟨c, List.mem_append_left _ hc, hcls⟩
  · rintro ⟨c, hc, hcls⟩
    have hne : q.dropWhile Text.isWhitespace ≠ [] := by
      intro hnil
      have hall := List.dropWhile_eq_nil_iff.1 hnil c hc
      rw [(hvisible c).1 hcls] at hall
      cases hall
    obtain ⟨d, r, hd⟩ := List.exists_cons_of_ne_nil hne
    have hdvisible : Text.isWhitespace d = false := by
      have := List.head_dropWhile_not Text.isWhitespace hne
      simpa [hd] using this
    refine ⟨q.takeWhile Text.isWhitespace ++ [d], ⟨q.takeWhile Text.isWhitespace, [d], rfl, ?_, Nat.zero_le _,
      by rintro ⟨⟩, [d], [], rfl, ?_, Nat.le_refl _, by rintro ⟨⟩, rfl⟩, r, ?_⟩
    · exact fun c hc => List.mem_takeWhile_imp hc
    · intro c hc
      rw [List.mem_singleton.1 hc]
      exact (hvisible d).2 hdvisible
    · rw [List.append_assoc, List.singleton_append, ← hd, List.takeWhile_append_dropWhile]

theorem kept_visible (find : Text → Nat) : StartKept [atLeast Text.isWhitespace 0, atLeast (visibleExcept "") 1] find :=
  fun _ h => startsWith_visible.2 (exists_mem_redact (by decide) (startsWith_visible.1 h))

theorem startsWith_until {cls : Char → Bool} : StartsWith ([atLeast cls 1] ++ [single (· == c)]) q ↔
    ∃ r rest, q = r ++ c :: rest ∧ r ≠ [] ∧ ∀ d ∈ r, cls d = true := by
  constructor
  · rintro ⟨w, hw, rest, rfl⟩
    obtain ⟨_, _, rfl, ⟨a, b, rfl, hcls, hmin, -, hb⟩, e, f, rfl, he, hemin, hefixed, hf⟩ := matches_append.1 hw
    obtain rfl : b = [] := hb
    obtain rfl : f = [] := hf
    obtain ⟨d, rfl⟩ := List.length_eq_one_iff.1 (hefixed rfl)
    obtain rfl : d = c := by simpa [single] using he d List.mem_cons_self
    exact ⟨a, rest, by simp, List.ne_nil_of_length_pos (Nat.lt_of_lt_of_le Nat.one_pos hmin), hcls⟩
  · rintro ⟨r, rest, rfl, hne, hcls⟩
    refine ⟨r ++ [c], matches_append.2 ⟨r, [c], rfl, ?_, ?_⟩, rest, by simp⟩
    · exact ⟨r, [], (List.append_nil r).symm, hcls, List.length_pos_of_ne_nil hne, by rintro ⟨⟩, rfl⟩
    · exact ⟨[c], [], rfl, by simp [single], Nat.le_refl _, fun _ => rfl, rfl⟩

theorem kept_until {cls : Char → Bool} (hmark : ∀ d ∈ redacted.text, cls d = true) {find : Text → Nat}
    (hfind : ∀ t : Text, c ∉ t.take (find t)) : StartKept ([atLeast cls 1] ++ [single (· == c)]) find := by
  intro q h
  obtain ⟨r, rest, rfl, hne, hcls⟩ := startsWith_until.1 h
  obtain ⟨r', heq, hmem, hne'⟩ : ∃ r', redact find redacted 0 (r ++ c :: rest) = r' ++ c :: redact find redacted 0 rest ∧
      (∀ d ∈ r', d ∈ r ∨ d ∈ redacted.text) ∧ (0 < r.length → r' ≠ []) :=
    redact_append_cons hfind r rest (Nat.zero_le _)
  refine startsWith_until.2 ⟨r', _, heq, hne' (List.length_pos_of_ne_nil hne), fun d hd => ?_⟩
  rcases hmem d hd with hd | hd
  · exact hcls d hd
  · exact hmark d hd

/-- The match of a shape holds characters of its classes only. -/
theorem not_mem_take_find (hshape : ∀ p ∈ shape, p.cls c = false) (t : Text) : c ∉ t.take (shapeFind shape t) := by
  unfold shapeFind
  cases hn : matchLen shape t with
  | none => exact List.not_mem_nil
  | some n =>
    obtain ⟨w, hw, rfl, hmatches⟩ := matchLen_sound hn
    rw [Option.getD_some, ← List.prefix_iff_eq_take.1 hw]
    intro hc
    exact hmatches.forall_mem (P := (· ≠ c)) (fun p hp d hd => by
      rintro rfl
      exact Bool.false_ne_true ((hshape p hp).symm.trans hd)) c hc rfl

/-- What follows a prefix is kept by the passes before its own. -/
theorem kept_before : ∀ s ∈ openShapes, ∃ before after, scrubPatterns = before ++ (s.1 ++ s.2) :: after ∧
    ∀ shape ∈ before, StartKept s.2 (shapeFind shape) := by
  have hat : ∀ shape ∈ closedShapes, ∀ p ∈ shape, p.cls '@' = false := by decide
  unfold openShapes
  simp only [List.forall_mem_cons]
  refine ⟨⟨scrubPatterns.take 6, scrubPatterns.drop 7, rfl, fun shape hshape => ?_⟩,
    ⟨scrubPatterns.take 7, scrubPatterns.drop 8, rfl, fun _ _ => kept_some (by decide) _⟩,
    ⟨scrubPatterns.take 8, scrubPatterns.drop 9, rfl, fun _ _ => kept_some (by decide) _⟩,
    ⟨scrubPatterns.take 9, scrubPatterns.drop 10, rfl, fun _ _ => kept_visible _⟩,
    ⟨scrubPatterns.take 10, [], rfl, fun _ _ => kept_some (by decide) _⟩, by rintro _ ⟨⟩⟩
  exact kept_until (by decide) (not_mem_take_find (hat shape hshape))

end

/-! ## Messages -/

/-- Every prefix of a token in the text begins a token. -/
def Tidy (message : Text) : Prop :=
  ∀ s ∈ openShapes, ∀ u ∈ message.tails, (matchLen s.1 u).isSome = true → shapeFind (s.1 ++ s.2) u ≠ 0

instance : DecidablePred Tidy := fun message => inferInstanceAs
  (Decidable (∀ s ∈ openShapes, ∀ u ∈ message.tails, (matchLen s.1 u).isSome = true → shapeFind (s.1 ++ s.2) u ≠ 0))

theorem open_fixed : ∀ s ∈ openShapes, ∀ p ∈ s.1, p.many = false := by decide

/-- No prefix of a token is left of a tidy message. -/
theorem not_infix_open {message p : Text} {s : List (Piece Char) × List (Piece Char)} (hs : s ∈ openShapes)
    (hp : Matches s.1 p) (htidy : Tidy message) (registry : SecretValues) : ¬ p <:+: scrub registry message := by
  intro h
  have hforeign := (alien_open s hs).foreign hp
  obtain ⟨before, after, hsplit, hkept⟩ := kept_before s hs
  have hmem : s.1 ++ s.2 ∈ scrubPatterns := by
    rw [hsplit]
    exact List.mem_append_right _ List.mem_cons_self
  have hpasses : p <:+: passes after (redact (shapeFind (s.1 ++ s.2)) redacted 0 (passes before message)) := by
    have hshapes : p <:+: scrubShapes message := infix_redactWords hforeign h
    rw [scrubShapes, hsplit, List.foldl_append] at hshapes
    exact hshapes
  obtain ⟨u, hu, hprefix, hzero⟩ := infix_redact hforeign (infix_passes hforeign hpasses)
  obtain ⟨q, rfl⟩ := prefix_redact hforeign.free hprefix
  obtain ⟨q₀, hq₀, hstarts⟩ := suffix_passes hforeign hkept hu
  -- in the message the prefix begins a token
  have hbegins : StartsWith s.2 q₀ := by
    have hfind := htidy s hs (p ++ q₀) ((List.mem_tails _ _).2 hq₀) (matchLen_complete hp (List.prefix_append p q₀))
    have hsome : ∃ w, Matches (s.1 ++ s.2) w ∧ w <+: p ++ q₀ := by
      by_contra hnone
      exact hfind ((shapeFind_eq_zero (shapes_ne_nil _ hmem)).2 fun w hw hpre => hnone ⟨w, hw, hpre⟩)
    obtain ⟨w, hw, hpre⟩ := hsome
    obtain ⟨p', x, rfl, hp', hx⟩ := matches_append.1 hw
    have hlen : p'.length = p.length :=
      (hp'.length_eq (open_fixed s hs)).trans (hp.length_eq (open_fixed s hs)).symm
    obtain ⟨rest, hrest⟩ := hpre
    rw [List.append_assoc] at hrest
    obtain ⟨rfl, rfl⟩ := List.append_inj hrest hlen
    exact ⟨x, hx, List.prefix_append x rest⟩
  obtain ⟨x, hx, hpre⟩ := hstarts hbegins
  exact (shapeFind_eq_zero (shapes_ne_nil _ hmem)).1 hzero (p ++ x) (matches_append.2 ⟨p, x, rfl, hp, hx⟩)
    ((List.prefix_append_right_inj p).2 hpre)

/-! ## Truncation -/

section
variable {w msg a b : Text} {c : Char}

theorem floorCharBoundary_begins (max : Nat) (t : Text) : floorCharBoundary max t <+: t := by
  induction t generalizing max with
  | nil => exact List.prefix_refl _
  | cons c t ih =>
    unfold floorCharBoundary
    split
    · exact List.cons_prefix_cons.2 ⟨rfl, ih _⟩
    · exact List.nil_prefix

/-- A word without a character stands on one side of it. -/
theorem infix_split (hc : c ∉ w) (h : w <:+: a ++ c :: b) : w <:+: a ∨ w <:+: b := by
  obtain ⟨x, y, hxy⟩ := h
  rcases List.append_eq_append_iff.1 hxy with ⟨m, rfl, -⟩ | ⟨m, hm, hcb⟩
  · exact .inl ⟨x, m, rfl⟩
  · cases m with
    | nil => exact .inl ⟨x, [], hm.trans (List.append_nil a) ▸ List.append_nil _⟩
    | cons d m =>
      obtain ⟨rfl, rfl⟩ := List.cons_eq_cons.1 hcb
      rcases List.append_eq_append_iff.1 hm with ⟨k, rfl, hk⟩ | ⟨k, rfl, hk⟩
      · exact absurd (hk ▸ List.mem_append_right _ List.mem_cons_self) hc
      · cases k with
        | nil => exact absurd (by rw [← List.nil_append w, ← hk]; exact List.mem_cons_self) hc
        | cons e k =>
          obtain ⟨-, rfl⟩ := List.cons_eq_cons.1 hk
          exact .inr ⟨k, y, rfl⟩

/-- Truncation brings no word that is neither in the message nor in a marker. -/
theorem not_infix_truncateMsg (hne : w ≠ []) (hbrackets : '[' ∉ w ∧ ']' ∉ w ∧ '…' ∉ w) (hmsg : ¬ w <:+: msg)
    (hextra : ∀ n, ¬ w <:+: extraBytes n) : ¬ w <:+: truncateMsg msg := by
  obtain ⟨hopening, hclosing, hdots⟩ := hbrackets
  unfold truncateMsg
  split
  · exact hmsg
  · intro h
    dsimp only at h
    rw [List.append_assoc, List.cons_append] at h
    rcases infix_split hdots h with h | h
    · exact hmsg (h.trans (floorCharBoundary_begins _ _).isInfix)
    · rw [List.cons_append, ← List.nil_append ('[' :: _)] at h
      rcases infix_split hopening h with h | h
      · exact hne (List.infix_nil.1 h)
      · rcases infix_split hclosing h with h | h
        · exact hextra _ h
        · exact hne (List.infix_nil.1 h)

theorem mem_extraBytes {n : Nat} (h : c ∈ extraBytes n) : c ∈ "[+0123456789 bytes]".toList := by
  have hdigits : ∀ k < 10, Char.ofNat (48 + k) ∈ "[+0123456789 bytes]".toList := by decide
  have hdigit : ∀ c : Char, c.isDigit = true → c ∈ "[+0123456789 bytes]".toList := by
    intro c hc
    obtain ⟨hlow, hhigh⟩ : 48 ≤ c.toNat ∧ c.toNat ≤ 57 := by
      simpa [Char.isDigit, UInt32.le_iff_toNat_le] using hc
    rw [← Char.ofNat_toNat c, ← Nat.add_sub_cancel' hlow]
    exact hdigits _ (by omega)
  unfold extraBytes at h
  rcases List.mem_append.1 h with h | h
  · rcases List.mem_cons.1 h with rfl | h
    · decide
    · exact hdigit c (Nat.isDigit_of_mem_toDigits (by decide) (by decide) h)
  · have hbytes : ∀ d ∈ " bytes".toList, d ∈ "[+0123456789 bytes]".toList := by decide
    exact hbytes c h

end

/-! ## Every line -/

/-- No form holds a character of the marks, or stands in one. -/
def SecretValues.Unmarked (registry : SecretValues) : Prop :=
  registry.Plain ∧ ∀ form ∈ registry.forms, '…' ∉ form ∧ ∀ n, ¬ form <:+: extraBytes n

/-- What is shipped without scrubbing is clean: the module path and the session id of a record, and the name of the
field that says the line was cut. -/
def FieldsClean (fromStr : Text → Option ServeLogRecord) (registry : SecretValues) (line : Text) (truncated : Bool) :
    Prop :=
  (∀ record message, serverRecord fromStr line = some (record, message) →
    (∀ module, record.modulePath = some module → module ≠ [] → Clean registry ("server:".toList ++ module)) ∧
    ∀ sid, record.sessionId = some sid → Clean registry sid) ∧
  (truncated = true → Clean registry "truncated".toList)

section
variable {fromStr : Text → Option ServeLogRecord} {registry : SecretValues} {line t : Text} {truncated : Bool}
  {nowMs : Nat} {record : ServeLogRecord}

/-- A short text without token shapes. -/
theorem clean_of_short (hlen : t.utf8.length < minSecretLen)
    (hshapes : ∀ shape ∈ scrubPatterns, ∀ u ∈ t.tails, shapeFind shape u = 0) : Clean registry t := by
  refine ⟨fun form hform hstands => ?_, fun shape hshape u hu => hshapes shape hshape u ((List.mem_tails _ _).2 hu)⟩
  obtain ⟨a, b, rfl⟩ := hstands
  have hlong := registry.long form hform
  rw [Text.utf8_append, Text.utf8_append, List.length_append, List.length_append] at hlen
  omega

/-- A scrubbed tidy message is clean, cut or not. -/
theorem clean_msg (hunmarked : registry.Unmarked) (htidy : Tidy t) : Clean registry (truncateMsg (scrub registry t)) := by
  have hextra : ∀ shape, Alien shape → ∀ w, Matches shape w → ∀ n, ¬ w <:+: extraBytes n := fun shape h w hw n =>
    h.not_infix hw (t := "[+0123456789 bytes]".toList) (by decide) fun c hc => mem_extraBytes hc
  refine clean_of_words (fun form hform => ?_) (fun shape hshape w hw => ?_) fun s hs p hp => ?_
  · obtain ⟨hopening, hclosing, -⟩ := hunmarked.1 form hform
    obtain ⟨hdots, hbytes⟩ := hunmarked.2 form hform
    exact not_infix_truncateMsg (registry.ne_nil hform) ⟨hopening, hclosing, hdots⟩
      (not_infix_redactWords hunmarked.1.foreign hform) hbytes
  · have halien := alien_closed shape hshape
    exact not_infix_truncateMsg (halien.ne_nil hw) (halien.not_mem hw) (not_infix_closed hshape hw registry t)
      (hextra _ halien w hw)
  · have halien := alien_open s hs
    exact not_infix_truncateMsg (halien.ne_nil hp) (halien.not_mem hp) (not_infix_open hs hp htidy registry)
      (hextra _ halien p hp)

theorem forall_recordSource {P : Text → Prop} (hserver : P "server".toList) : P (recordSource record).toList ↔
    ∀ module, record.modulePath = some module → module ≠ [] → P ("server:".toList ++ module) := by
  unfold recordSource
  cases record.modulePath with
  | none => exact ⟨by rintro - _ ⟨⟩, fun _ => hserver⟩
  | some module =>
    dsimp only
    split
    · rename_i hne
      rw [String.toList_ofList]
      constructor
      · rintro h _ ⟨⟩ -
        exact h
      · exact fun h => h module rfl hne
    · rename_i hnil
      constructor
      · rintro - _ ⟨⟩ hne
        exact absurd hne hnil
      · exact fun _ => hserver

theorem forall_recordFields {P : Text → Prop} (hsid : P "sid".toList) (hepoch : P "epoch".toList) :
    (∀ t ∈ (recordFields record).flatMap fun f => f.1 :: scalarTexts f.2, P t) ↔
      ∀ sid, record.sessionId = some sid → P sid := by
  have hsid' : P ['s', 'i', 'd'] := hsid
  have hepoch' : P ['e', 'p', 'o', 'c', 'h'] := hepoch
  unfold recordFields
  cases record.epoch <;> cases record.sessionId <;> simp [scalarTexts, hsid', hepoch']

/-- Whether a line was cut adds one field. -/
theorem forall_texts_pumpServer {P : Text → Prop} :
    (∀ t ∈ (pumpServer fromStr registry line truncated nowMs).texts, P t) ↔
      (∀ t ∈ (entryFromServer fromStr registry line nowMs).texts, P t) ∧ (truncated = true → P "truncated".toList) := by
  cases truncated with
  | false => simp [pumpServer]
  | true => simp [pumpServer, LogEntry.texts, scalarTexts, or_imp, forall_and, and_assoc]

/-- The texts of an entry are the scrubbed message, the source, and the session id among its fields. -/
theorem forall_texts_entryFromServer {P : Text → Prop} (hserver : P "server".toList) (hsid : P "sid".toList)
    (hepoch : P "epoch".toList) :
    (∀ t ∈ (entryFromServer fromStr registry line nowMs).texts, P t) ↔
      P (truncateMsg (scrub registry (serverMessage fromStr line))) ∧
      ∀ record message, serverRecord fromStr line = some (record, message) →
        (∀ module, record.modulePath = some module → module ≠ [] → P ("server:".toList ++ module)) ∧
        ∀ sid, record.sessionId = some sid → P sid := by
  unfold entryFromServer serverMessage
  cases serverRecord fromStr line with
  | none =>
    simp only [LogEntry.texts, Option.getD_none, List.flatMap_nil, List.forall_mem_cons]
    constructor
    · rintro ⟨-, hmsg, -⟩
      exact ⟨hmsg, by rintro _ _ ⟨⟩⟩
    · exact fun h => ⟨hserver, h.1, by rintro _ ⟨⟩⟩
  | some found =>
    obtain ⟨record, message⟩ := found
    have hfields : ((if recordFields record = [] then none else some (recordFields record)).getD []) =
        recordFields record := by
      split
      · rename_i hnil
        exact hnil.symm
      · rfl
    simp only [LogEntry.texts, hfields, List.forall_mem_cons, forall_recordSource hserver,
      forall_recordFields hsid hepoch]
    constructor
    · rintro ⟨hsource, hmsg, hrest⟩
      refine ⟨hmsg, ?_⟩
      rintro _ _ ⟨⟩
      exact ⟨hsource, hrest⟩
    · rintro ⟨hmsg, h⟩
      exact ⟨(h record message rfl).1, hmsg, (h record message rfl).2⟩

end

/-- A line of the server's as `serde_json` reads it. -/
def recordLine (sessionId : Text) : Text :=
  "\x7b\"message\":\"pw hunter2hunter2\",\"session_id\":\"".toList ++ sessionId ++ "\"\x7d".toList

def lineRecord (sessionId : Text) : ServeLogRecord :=
  ⟨none, none, none, some "pw hunter2hunter2".toList, some sessionId, none⟩

def readRecordLine (sessionId text : Text) : Option ServeLogRecord :=
  if text = recordLine sessionId then some (lineRecord sessionId) else none

theorem serverRecord_recordLine (sessionId : Text) (h : trimEnd (recordLine sessionId) = recordLine sessionId) :
    serverRecord (readRecordLine sessionId) (recordLine sessionId) =
      some (lineRecord sessionId, "pw hunter2hunter2".toList) := by
  have hhead : (recordLine sessionId).head? = some '\x7b' := rfl
  unfold serverRecord
  rw [h, if_pos hhead, readRecordLine, if_pos rfl]
  rfl

end Zedspaces.Supervisor
