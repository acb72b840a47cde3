/-
The lossy reading of UTF-8 byte by byte: what a byte emits and the unfinished character it leaves. Reading is reading
the bytes in turn (`utf8Lossy_append`); the encoding of a text is read as the text (`utf8Lossy_encode`); and bytes that
are read in two pieces give as many characters as at once, or more, as many exactly if the second piece does not go on
with the character that the first one leaves unfinished (`utf8Lossy_cut`).
-/
import Zedspaces.Lib.Text

namespace Zedspaces.Lib.Text

/-- What a byte emits, and the character left unfinished after it. -/
def lossyStep (pending : Option Pending) (b : Nat) : Text × Option Pending :=
  match pending with
  | none => firstByte b
  | some p =>
    if p.low ≤ b ∧ b ≤ p.high then
      if p.need = 1 then ([Char.ofNat (p.bits * 64 + b % 64)], none)
      else ([], some ⟨p.need - 1, p.bits * 64 + b % 64, 0x80, 0xBF⟩)
    else ('\uFFFD' :: (firstByte b).1, (firstByte b).2)

/-- What the end of the bytes emits. -/
def flush (pending : Option Pending) : Text := if pending.isSome then ['\uFFFD'] else []

/-- What the bytes emit, and the character left unfinished after them. -/
def lossyRun (pending : Option Pending) : List UInt8 → Text × Option Pending
  | [] => ([], pending)
  | b :: rest =>
    let (t, next) := lossyStep pending b.toNat
    let (u, last) := lossyRun next rest
    (t ++ u, last)

variable {p : Option Pending} {q : Pending} {b : UInt8} {bytes rest : List UInt8} {c : Char} {t : Text}

theorem utf8Lossy_nil : utf8Lossy p [] = flush p := rfl

theorem utf8Lossy_cons :
    utf8Lossy p (b :: rest) = (lossyStep p b.toNat).1 ++ utf8Lossy (lossyStep p b.toNat).2 rest := by
  cases p with
  | none => rfl
  | some q =>
    simp only [utf8Lossy, lossyStep]
    split
    · split <;> rfl
    · rfl

/-- Reading on from where the first bytes leave off. -/
theorem utf8Lossy_append (p : Option Pending) (bytes rest : List UInt8) :
    utf8Lossy p (bytes ++ rest) = (lossyRun p bytes).1 ++ utf8Lossy (lossyRun p bytes).2 rest := by
  induction bytes generalizing p with
  | nil => rfl
  | cons b bytes ih =>
    rw [List.cons_append, utf8Lossy_cons, ih, ← List.append_assoc]
    rfl

theorem utf8Lossy_eq (p : Option Pending) (bytes : List UInt8) :
    utf8Lossy p bytes = (lossyRun p bytes).1 ++ flush (lossyRun p bytes).2 := by
  have happend := utf8Lossy_append p bytes []
  rwa [List.append_nil, utf8Lossy_nil] at happend

theorem lossyRun_append (p : Option Pending) (bytes rest : List UInt8) :
    lossyRun p (bytes ++ rest) = ((lossyRun p bytes).1 ++ (lossyRun (lossyRun p bytes).2 rest).1,
      (lossyRun (lossyRun p bytes).2 rest).2) := by
  induction bytes generalizing p with
  | nil => rfl
  | cons b bytes ih => simp only [List.cons_append, lossyRun, ih, List.append_assoc]

/-! ## Unfinished characters -/

/-- After its second byte a character takes any continuation byte. -/
def Pending.tail (need bits : Nat) : Pending := ⟨need, bits, 0x80, 0xBF⟩

/-- A byte that the unfinished character takes, with more to come. -/
theorem lossyRun_more {need bits low high : Nat} (hneed : need ≠ 1) (hin : low ≤ b.toNat ∧ b.toNat ≤ high) :
    lossyRun (some ⟨need, bits, low, high⟩) (b :: rest) =
      lossyRun (some (.tail (need - 1) (bits * 64 + b.toNat % 64))) rest := by
  simp only [lossyRun, lossyStep, if_pos hin, if_neg hneed, List.nil_append]
  rfl

/-- The last byte of a character. -/
theorem lossyRun_last {bits low high : Nat} (hin : low ≤ b.toNat ∧ b.toNat ≤ high) :
    lossyRun (some ⟨1, bits, low, high⟩) [b] = ([Char.ofNat (bits * 64 + b.toNat % 64)], none) := by
  simp only [lossyRun, lossyStep, if_pos hin, if_true, List.append_nil]

theorem lossyRun_first (b : UInt8) (rest : List UInt8) : lossyRun none (b :: rest) =
    ((firstByte b.toNat).1 ++ (lossyRun (firstByte b.toNat).2 rest).1, (lossyRun (firstByte b.toNat).2 rest).2) := rfl

/-- The next byte that an unfinished character takes is a continuation byte. -/
def TakesTail (p : Option Pending) : Prop := ∀ q ∈ p, 0x80 ≤ q.low ∧ q.high ≤ 0xBF

theorem takesTail_none : TakesTail none := by
  intro q hq
  cases hq

theorem takesTail_tail (need bits : Nat) : TakesTail (some (.tail need bits)) := by
  rintro _ ⟨⟩
  exact ⟨Nat.le_refl _, Nat.le_refl _⟩

theorem takesTail_firstByte (b : Nat) : TakesTail (firstByte b).2 := by
  intro q hq
  unfold firstByte at hq
  split at hq
  · cases hq
  · split at hq
    · cases hq; exact ⟨Nat.le_refl _, Nat.le_refl _⟩
    · split at hq
      · cases hq
        dsimp only
        split <;> split <;> omega
      · split at hq
        · cases hq
          dsimp only
          split <;> split <;> omega
        · cases hq

theorem takesTail_lossyStep (p : Option Pending) (b : Nat) : TakesTail (lossyStep p b).2 := by
  cases p with
  | none => exact takesTail_firstByte b
  | some q =>
    unfold lossyStep
    dsimp only
    split
    · split
      · exact takesTail_none
      · exact takesTail_tail _ _
    · exact takesTail_firstByte b

theorem takesTail_lossyRun (hp : TakesTail p) (bytes : List UInt8) : TakesTail (lossyRun p bytes).2 := by
  induction bytes generalizing p with
  | nil => exact hp
  | cons b bytes ih => exact ih (takesTail_lossyStep p b.toNat)

/-- Whether the unfinished character goes on with the bytes. -/
def GoesOn (p : Option Pending) : List UInt8 → Prop
  | [] => False
  | b :: _ => ∃ q ∈ p, q.low ≤ b.toNat ∧ b.toNat ≤ q.high

/-- An unfinished character that does not go on is read as one at the end. -/
theorem utf8Lossy_of_not_goesOn (h : ¬ GoesOn p bytes) : utf8Lossy p bytes = flush p ++ utf8Lossy none bytes := by
  cases p with
  | none => rfl
  | some q =>
    cases bytes with
    | nil => rfl
    | cons b rest =>
      have hout : ¬ (q.low ≤ b.toNat ∧ b.toNat ≤ q.high) := fun hin => h ⟨q, rfl, hin⟩
      rw [utf8Lossy_cons, utf8Lossy_cons]
      simp only [lossyStep, if_neg hout]
      rfl

/-- A continuation byte that continues nothing is read as one replacement character. -/
theorem utf8Lossy_tail (hlow : 0x80 ≤ b.toNat) (hhigh : b.toNat ≤ 0xBF) :
    utf8Lossy none (b :: rest) = '\uFFFD' :: utf8Lossy none rest := by
  have hfirst : firstByte b.toNat = (['\uFFFD'], none) := by
    unfold firstByte
    rw [if_neg (by omega), if_neg (by omega), if_neg (by omega), if_neg (by omega)]
  rw [utf8Lossy_cons]
  show (firstByte b.toNat).1 ++ utf8Lossy (firstByte b.toNat).2 rest = _
  rw [hfirst]
  rfl

theorem length_utf8Lossy_le (hp : TakesTail p) (bytes : List UInt8) :
    (utf8Lossy p bytes).length ≤ (flush p).length + (utf8Lossy none bytes).length := by
  induction bytes generalizing p with
  | nil => simp [utf8Lossy_nil]
  | cons b rest ih =>
    by_cases hon : GoesOn p (b :: rest)
    · obtain ⟨q, hq, hin⟩ := hon
      cases hq
      obtain ⟨hlow, hhigh⟩ := hp q rfl
      rw [utf8Lossy_tail (by omega) (by omega), utf8Lossy_cons, lossyStep, if_pos hin]
      split
      · simp [flush]
      · have hrest := ih (takesTail_tail (q.need - 1) (q.bits * 64 + b.toNat % 64))
        simp only [flush, Pending.tail, Option.isSome_some, if_true, List.length_cons, List.nil_append] at *
        omega
    · rw [utf8Lossy_of_not_goesOn hon, List.length_append]

/-- An unfinished character that goes on is lost when it is read as one at the end. -/
theorem length_utf8Lossy_lt (hp : TakesTail p) (h : GoesOn p bytes) :
    (utf8Lossy p bytes).length < (flush p).length + (utf8Lossy none bytes).length := by
  cases bytes with
  | nil => exact h.elim
  | cons b rest =>
    obtain ⟨q, hq, hin⟩ := h
    cases hq
    obtain ⟨hlow, hhigh⟩ := hp q rfl
    rw [utf8Lossy_tail (by omega) (by omega), utf8Lossy_cons, lossyStep, if_pos hin]
    split
    · simp [flush]
    · have hrest := length_utf8Lossy_le (takesTail_tail (q.need - 1) (q.bits * 64 + b.toNat % 64)) rest
      simp only [flush, Pending.tail, Option.isSome_some, if_true, List.length_cons, List.nil_append] at *
      omega

/-- Bytes read in two pieces give no fewer characters than at once. -/
theorem utf8Lossy_cut_le (bytes rest : List UInt8) :
    (utf8Lossy none (bytes ++ rest)).length ≤ (utf8Lossy none bytes).length + (utf8Lossy none rest).length := by
  have hle := length_utf8Lossy_le (takesTail_lossyRun takesTail_none bytes) rest
  rw [utf8Lossy_append, utf8Lossy_eq none bytes]
  simp only [List.length_append]
  omega

/-- Bytes read in two pieces are read as at once exactly if the second does not go on with a character of the first. -/
theorem utf8Lossy_cut (bytes rest : List UInt8) :
    (utf8Lossy none (bytes ++ rest)).length = (utf8Lossy none bytes).length + (utf8Lossy none rest).length ↔
      ¬ GoesOn (lossyRun none bytes).2 rest := by
  constructor
  · intro heq hon
    have hlt := length_utf8Lossy_lt (takesTail_lossyRun takesTail_none bytes) hon
    rw [utf8Lossy_append, utf8Lossy_eq none bytes] at heq
    simp only [List.length_append] at heq
    omega
  · intro hout
    rw [utf8Lossy_append, utf8Lossy_of_not_goesOn hout, utf8Lossy_eq none bytes]
    simp only [List.length_append]
    omega

theorem utf8Lossy_append_of_not_goesOn (h : ¬ GoesOn (lossyRun none bytes).2 rest) :
    utf8Lossy none (bytes ++ rest) = utf8Lossy none bytes ++ utf8Lossy none rest := by
  rw [utf8Lossy_append, utf8Lossy_of_not_goesOn h, utf8Lossy_eq none bytes, List.append_assoc]

/-! ## Pieces -/

/-- No piece goes on with a character that the one before it leaves unfinished. -/
def CleanCuts : List (List UInt8) → Prop
  | [] => True
  | piece :: pieces => ¬ GoesOn (lossyRun none piece).2 pieces.flatten ∧ CleanCuts pieces

theorem length_lossyPieces (pieces : List (List UInt8)) :
    (utf8Lossy none pieces.flatten).length ≤ (pieces.flatMap (utf8Lossy none)).length := by
  induction pieces with
  | nil => exact Nat.le_refl _
  | cons piece pieces ih =>
    have hcut := utf8Lossy_cut_le piece pieces.flatten
    rw [List.flatten_cons, List.flatMap_cons, List.length_append]
    omega

/-- Pieces that are read one by one give the text of the whole exactly if every cut is clean. -/
theorem lossyPieces_eq (pieces : List (List UInt8)) :
    pieces.flatMap (utf8Lossy none) = utf8Lossy none pieces.flatten ↔ CleanCuts pieces := by
  induction pieces with
  | nil => exact iff_of_true rfl trivial
  | cons piece pieces ih =>
    rw [List.flatMap_cons, List.flatten_cons, CleanCuts]
    by_cases hclean : GoesOn (lossyRun none piece).2 pieces.flatten
    · -- a character is lost, and nothing makes up for it
      have hle := utf8Lossy_cut_le piece pieces.flatten
      have hne := mt (utf8Lossy_cut piece pieces.flatten).1 (not_not.2 hclean)
      have hpieces := length_lossyPieces pieces
      refine iff_of_false (fun he => ?_) fun h => h.1 hclean
      have hlength := congrArg List.length he
      rw [List.length_append] at hlength
      omega
    · rw [utf8Lossy_append_of_not_goesOn hclean, List.append_cancel_left_eq, ih]
      exact ⟨fun h => ⟨hclean, h⟩, fun h => h.2⟩

/-! ## Strict reading -/

/-- How the bytes of one character end: complete after so many bytes, or cut short, or invalid after so many. -/
inductive CharRead where
  | complete (length : Nat)
  | incomplete
  | invalid (length : Nat)

/-- The bytes of a character after the first `seen`. -/
def charEnd (seen : Nat) (q : Pending) : List UInt8 → CharRead
  | [] => .incomplete
  | b :: rest =>
    if q.low ≤ b.toNat ∧ b.toNat ≤ q.high then
      if q.need = 1 then .complete (seen + 1)
      else charEnd (seen + 1) (.tail (q.need - 1) (q.bits * 64 + b.toNat % 64)) rest
    else .invalid seen

/-- The character at the head of the bytes. -/
def readChar (b : UInt8) (rest : List UInt8) : CharRead :=
  if b.toNat < 0x80 then .complete 1
  else match (firstByte b.toNat).2 with
    | some q => charEnd 1 q rest
    | none => .invalid 1

/-- Where the first character that is none begins, and how long it is, unless the bytes end in it. -/
structure Utf8Error where
  validUpTo : Nat
  errorLen : Option Nat
  deriving DecidableEq, Repr

/-- `std::str::from_utf8`: the error, if there is one. -/
def utf8Error : List UInt8 → Option Utf8Error
  | [] => none
  | b :: rest => match readChar b rest with
    | .complete n => (utf8Error (rest.drop (n - 1))).map fun e => { e with validUpTo := n + e.validUpTo }
    | .incomplete => some ⟨0, none⟩
    | .invalid n => some ⟨0, some n⟩
termination_by bytes => bytes.length
decreasing_by rw [List.length_drop, List.length_cons]; omega

theorem charEnd_complete {seen n : Nat} (h : charEnd seen q rest = .complete n) :
    seen < n ∧ n ≤ seen + rest.length ∧ (lossyRun (some q) (rest.take (n - seen))).2 = none := by
  induction rest generalizing seen q with
  | nil => cases h
  | cons b rest ih =>
    rw [charEnd] at h
    split at h
    · next hin =>
      split at h
      · next hneed =>
        cases h
        obtain ⟨need, bits, low, high⟩ := q
        cases hneed
        refine ⟨Nat.lt_succ_self _, by simp, ?_⟩
        rw [Nat.add_sub_cancel_left, List.take_succ_cons, List.take_zero, lossyRun_last hin]
      · next hneed =>
        obtain ⟨hlt, hle, hrun⟩ := ih h
        obtain ⟨need, bits, low, high⟩ := q
        have htake : (b :: rest).take (n - seen) = b :: rest.take (n - (seen + 1)) := by
          have hsucc : n - seen = n - (seen + 1) + 1 := by omega
          rw [hsucc, List.take_succ_cons]
        refine ⟨by omega, by rw [List.length_cons]; omega, ?_⟩
        rw [htake, lossyRun_more hneed hin]
        exact hrun
    · cases h

/-- A character that is cut short lacks a continuation byte, and all it has are such bytes. -/
theorem charEnd_incomplete {seen : Nat} (hq : TakesTail (some q)) (hneed : 1 ≤ q.need)
    (h : charEnd seen q rest = .incomplete) : rest.length < q.need ∧ ∀ b ∈ rest, 0x80 ≤ b.toNat := by
  induction rest generalizing seen q with
  | nil => exact ⟨hneed, nofun⟩
  | cons b rest ih =>
    rw [charEnd] at h
    split at h
    · next hin =>
      split at h
      · cases h
      · next hne =>
        obtain ⟨hlength, hbytes⟩ := ih (takesTail_tail _ _) (by simp only [Pending.tail]; omega) h
        simp only [Pending.tail] at hlength
        have hlow := (hq q rfl).1
        exact ⟨by rw [List.length_cons]; omega, List.forall_mem_cons.2 ⟨by omega, hbytes⟩⟩
    · cases h

theorem need_firstByte {n : Nat} (h : (firstByte n).2 = some q) : 1 ≤ q.need ∧ q.need ≤ 3 ∧ 0x80 ≤ n := by
  unfold firstByte at h
  split at h
  · cases h
  · next hascii =>
    split at h
    · cases h
      dsimp only
      omega
    · split at h
      · cases h
        dsimp only
        omega
      · split at h
        · cases h
          dsimp only
          omega
        · cases h

theorem readChar_complete {n : Nat} (h : readChar b rest = .complete n) :
    0 < n ∧ n ≤ rest.length + 1 ∧ (lossyRun none (b :: rest.take (n - 1))).2 = none := by
  unfold readChar at h
  split at h
  · next hascii =>
    cases h
    have hfirst : firstByte b.toNat = ([Char.ofNat b.toNat], none) := if_pos hascii
    refine ⟨Nat.one_pos, Nat.le_add_left _ _, ?_⟩
    rw [lossyRun_first, hfirst]
    rfl
  · split at h
    · next q hq =>
      obtain ⟨hlt, hle, hrun⟩ := charEnd_complete h
      refine ⟨by omega, by omega, ?_⟩
      rw [lossyRun_first, hq]
      exact hrun
    · cases h

/-- A character that is cut short has three bytes at most, none of them ASCII. -/
theorem readChar_incomplete (h : readChar b rest = .incomplete) :
    rest.length + 1 ≤ 3 ∧ ∀ c ∈ b :: rest, 0x80 ≤ c.toNat := by
  unfold readChar at h
  split at h
  · cases h
  · split at h
    · next q hq =>
      obtain ⟨hneed, hthree, hb⟩ := need_firstByte hq
      have htail : TakesTail (some q) := hq ▸ takesTail_firstByte b.toNat
      obtain ⟨hlength, hbytes⟩ := charEnd_incomplete htail hneed h
      exact ⟨by omega, List.forall_mem_cons.2 ⟨hb, hbytes⟩⟩
    · cases h

theorem utf8Error_cons (b : UInt8) (rest : List UInt8) : utf8Error (b :: rest) = match readChar b rest with
    | .complete n => (utf8Error (rest.drop (n - 1))).map fun e => { e with validUpTo := n + e.validUpTo }
    | .incomplete => some ⟨0, none⟩
    | .invalid n => some ⟨0, some n⟩ := by
  rw [utf8Error]

/-- A character and the bytes behind it. -/
theorem lossyRun_readChar {n : Nat} (h : readChar b rest = .complete n) (k : Nat) :
    (lossyRun none ((b :: rest).take (n + k))).2 = (lossyRun none ((rest.drop (n - 1)).take k)).2 := by
  obtain ⟨hpos, hle, hrun⟩ := readChar_complete h
  have htake : (b :: rest).take (n + k) = (b :: rest.take (n - 1)) ++ (rest.drop (n - 1)).take k := by
    have hsucc : n + k = (n - 1) + k + 1 := by omega
    rw [hsucc, List.take_succ_cons, List.take_add]
    rfl
  rw [htake, lossyRun_append, hrun]

/-- Bytes without an error end at a character's end. -/
theorem lossyRun_of_utf8Error (h : utf8Error bytes = none) : (lossyRun none bytes).2 = none := by
  induction hn : bytes.length using Nat.strongRecOn generalizing bytes with
  | _ m ih =>
    cases bytes with
    | nil => rfl
    | cons b rest =>
      rw [utf8Error_cons] at h
      split at h
      · next n hread =>
        have hrest := Option.map_eq_none_iff.1 h
        have hlength : (rest.drop (n - 1)).length < m := by
          rw [← hn, List.length_drop, List.length_cons]
          omega
        have hrun := lossyRun_readChar hread (rest.drop (n - 1)).length
        rw [List.take_length, ih _ hlength hrest rfl, List.take_of_length_le] at hrun
        · exact hrun
        · obtain ⟨hpos, hle, -⟩ := readChar_complete hread
          rw [List.length_drop, List.length_cons]
          omega
      · cases h
      · cases h

/-- Bytes that end in a character which is cut short, behind valid ones. -/
structure CutShort (bytes : List UInt8) (v : Nat) : Prop where
  lt : v < bytes.length
  clean : (lossyRun none (bytes.take v)).2 = none
  tail : utf8Error (bytes.drop v) = some ⟨0, none⟩
  length : (bytes.drop v).length ≤ 3
  notAscii : ∀ b ∈ bytes.drop v, 0x80 ≤ b.toNat

theorem cutShort {v : Nat} (h : utf8Error bytes = some ⟨v, none⟩) : CutShort bytes v := by
  induction hn : bytes.length using Nat.strongRecOn generalizing bytes v with
  | _ m ih =>
    cases bytes with
    | nil =>
      rw [utf8Error] at h
      cases h
    | cons b rest =>
      have herror := h
      rw [utf8Error_cons] at h
      split at h
      · next n hread =>
        obtain ⟨⟨v', e'⟩, hrest, he⟩ := Option.map_eq_some_iff.1 h
        cases he
        have hle := (readChar_complete hread).2.1
        have hpos := (readChar_complete hread).1
        have hlength : (rest.drop (n - 1)).length < m := by
          rw [← hn, List.length_drop, List.length_cons]
          omega
        obtain ⟨hlt, hclean, htail, hshort, hbytes⟩ := ih _ hlength hrest rfl
        have hdrop : (b :: rest).drop (n + v') = (rest.drop (n - 1)).drop v' := by
          have hsucc : n + v' = (n - 1) + v' + 1 := by omega
          rw [hsucc, List.drop_succ_cons, List.drop_drop]
        rw [List.length_drop] at hlt
        refine ⟨?_, by rw [lossyRun_readChar hread]; exact hclean, hdrop ▸ htail, hdrop ▸ hshort, hdrop ▸ hbytes⟩
        dsimp only
        rw [List.length_cons]
        omega
      · next hread =>
        cases h
        obtain ⟨hlength, hbytes⟩ := readChar_incomplete hread
        exact ⟨Nat.succ_pos _, rfl, herror, hlength, hbytes⟩
      · cases h

/-! ## ASCII and other characters -/

/-- An ASCII byte ends what is unfinished and is read as its character. -/
theorem utf8Lossy_ascii (hp : TakesTail p) (hb : b.toNat < 0x80) :
    utf8Lossy p (b :: rest) = flush p ++ Char.ofNat b.toNat :: utf8Lossy none rest := by
  have hout : ¬ GoesOn p (b :: rest) := by
    rintro ⟨q, hq, hlow, -⟩
    have := (hp q hq).1
    omega
  have hfirst : firstByte b.toNat = ([Char.ofNat b.toNat], none) := if_pos hb
  rw [utf8Lossy_of_not_goesOn hout, utf8Lossy_cons]
  show flush p ++ ((firstByte b.toNat).1 ++ utf8Lossy (firstByte b.toNat).2 rest) = _
  rw [hfirst]
  rfl

/-- The one to four bytes of a character. -/
theorem utf8EncodeChar_eq (c : Char) : String.utf8EncodeChar c = if c.toNat ≤ 0x7F then [.ofNat c.toNat]
    else if c.toNat ≤ 0x7FF then [.ofNat (c.toNat / 64 % 0x20 + 0xC0), .ofNat (c.toNat % 0x40 + 0x80)]
    else if c.toNat ≤ 0xFFFF then [.ofNat (c.toNat / 4096 % 0x10 + 0xE0), .ofNat (c.toNat / 64 % 0x40 + 0x80),
      .ofNat (c.toNat % 0x40 + 0x80)]
    else [.ofNat (c.toNat / 262144 % 0x08 + 0xF0), .ofNat (c.toNat / 4096 % 0x40 + 0x80),
      .ofNat (c.toNat / 64 % 0x40 + 0x80), .ofNat (c.toNat % 0x40 + 0x80)] := rfl

theorem toNat_ofNat_byte {n : Nat} (hn : n < 256) : (UInt8.ofNat n).toNat = n := by
  rw [UInt8.toNat_ofNat']
  exact Nat.mod_eq_of_lt hn

theorem lossyRun_encodeChar (c : Char) : lossyRun none (String.utf8EncodeChar c) = ([c], none) := by
  have hvalid : c.toNat < 0xD800 ∨ 0xDFFF < c.toNat ∧ c.toNat < 0x110000 := c.valid
  have hc : ∀ n, n = c.toNat → Char.ofNat n = c := by
    rintro _ rfl
    exact Char.ofNat_toNat c
  rw [utf8EncodeChar_eq]
  generalize c.toNat = v at *
  have htail := toNat_ofNat_byte (n := v % 0x40 + 0x80) (by omega)
  by_cases h₁ : v ≤ 0x7F
  · rw [if_pos h₁, lossyRun_first, toNat_ofNat_byte (n := v) (by omega), firstByte, if_pos (by omega), hc v rfl]
    rfl
  rw [if_neg h₁]
  by_cases h₂ : v ≤ 0x7FF
  · rw [if_pos h₂, lossyRun_first, toNat_ofNat_byte (n := v / 64 % 0x20 + 0xC0) (by omega), firstByte,
      if_neg (by omega), if_pos (by omega)]
    dsimp only
    rw [lossyRun_last (by omega), htail, hc _ (by omega)]
    rfl
  rw [if_neg h₂]
  have htail' := toNat_ofNat_byte (n := v / 64 % 0x40 + 0x80) (by omega)
  by_cases h₃ : v ≤ 0xFFFF
  · rw [if_pos h₃, lossyRun_first, toNat_ofNat_byte (n := v / 4096 % 0x10 + 0xE0) (by omega), firstByte,
      if_neg (by omega), if_neg (by omega), if_pos (by omega)]
    dsimp only
    rw [lossyRun_more (by decide) (by rw [htail']; split <;> split <;> omega), Pending.tail, lossyRun_last (by omega),
      htail, htail', hc _ (by omega)]
    rfl
  · have htail'' := toNat_ofNat_byte (n := v / 4096 % 0x40 + 0x80) (by omega)
    rw [if_neg h₃, lossyRun_first, toNat_ofNat_byte (n := v / 262144 % 0x08 + 0xF0) (by omega), firstByte,
      if_neg (by omega), if_neg (by omega), if_neg (by omega), if_pos (by omega)]
    dsimp only
    rw [lossyRun_more (by decide) (by rw [htail'']; split <;> split <;> omega), Pending.tail,
      lossyRun_more (by decide) (by omega), Pending.tail, lossyRun_last (by omega), htail, htail', htail'',
      hc _ (by omega)]
    rfl

/-- Nothing is unfinished after an ASCII byte. -/
theorem lossyRun_ascii (hp : TakesTail p) (hb : b.toNat < 0x80) : (lossyRun p [b]).2 = none := by
  have hfirst : (firstByte b.toNat).2 = none := by rw [firstByte, if_pos hb]
  cases p with
  | none => exact hfirst
  | some q =>
    have hlow := (hp q rfl).1
    have hout : ¬ (q.low ≤ b.toNat ∧ b.toNat ≤ q.high) := by omega
    simp only [lossyRun, lossyStep, if_neg hout]
    exact hfirst

theorem utf8Lossy_encodeChar (c : Char) (rest : List UInt8) :
    utf8Lossy none (String.utf8EncodeChar c ++ rest) = c :: utf8Lossy none rest := by
  rw [utf8Lossy_append, lossyRun_encodeChar]
  rfl

/-- The encoding of a text is read as the text. -/
theorem utf8Lossy_encode (t : Text) : utf8Lossy none (utf8 t) = t := by
  induction t with
  | nil => rfl
  | cons c t ih =>
    have hcons : utf8 (c :: t) = String.utf8EncodeChar c ++ utf8 t := List.flatMap_cons
    rw [hcons, utf8Lossy_encodeChar, ih]

theorem charEnd_more {seen need bits low high : Nat} (hneed : need ≠ 1)
    (hin : low ≤ b.toNat ∧ b.toNat ≤ high) : charEnd seen ⟨need, bits, low, high⟩ (b :: rest) =
      charEnd (seen + 1) (.tail (need - 1) (bits * 64 + b.toNat % 64)) rest := by
  rw [charEnd, if_pos hin, if_neg hneed]

theorem charEnd_last {seen bits low high : Nat} (hin : low ≤ b.toNat ∧ b.toNat ≤ high) :
    charEnd seen ⟨1, bits, low, high⟩ (b :: rest) = .complete (seen + 1) := by
  rw [charEnd, if_pos hin, if_pos rfl]

/-- The encoding of a character is read as one. -/
theorem readChar_encodeChar (c : Char) (rest : List UInt8) :
    ∃ b tail, String.utf8EncodeChar c = b :: tail ∧ readChar b (tail ++ rest) = .complete (tail.length + 1) := by
  have hvalid : c.toNat < 0xD800 ∨ 0xDFFF < c.toNat ∧ c.toNat < 0x110000 := c.valid
  rw [utf8EncodeChar_eq]
  generalize c.toNat = v at *
  have htail := toNat_ofNat_byte (n := v % 0x40 + 0x80) (by omega)
  by_cases h₁ : v ≤ 0x7F
  · rw [if_pos h₁]
    refine ⟨_, _, rfl, ?_⟩
    rw [readChar, toNat_ofNat_byte (n := v) (by omega), if_pos (by omega)]
    rfl
  rw [if_neg h₁]
  by_cases h₂ : v ≤ 0x7FF
  · rw [if_pos h₂]
    refine ⟨_, _, rfl, ?_⟩
    rw [readChar, toNat_ofNat_byte (n := v / 64 % 0x20 + 0xC0) (by omega), if_neg (by omega), firstByte,
      if_neg (by omega), if_pos (by omega)]
    dsimp only
    rw [List.cons_append, charEnd_last (by omega)]
    rfl
  rw [if_neg h₂]
  have htail' := toNat_ofNat_byte (n := v / 64 % 0x40 + 0x80) (by omega)
  by_cases h₃ : v ≤ 0xFFFF
  · rw [if_pos h₃]
    refine ⟨_, _, rfl, ?_⟩
    rw [readChar, toNat_ofNat_byte (n := v / 4096 % 0x10 + 0xE0) (by omega), if_neg (by omega), firstByte,
      if_neg (by omega), if_neg (by omega), if_pos (by omega)]
    dsimp only
    rw [List.cons_append, List.cons_append, charEnd_more (by decide) (by rw [htail']; split <;> split <;> omega),
      Pending.tail, charEnd_last (by omega)]
    rfl
  · have htail'' := toNat_ofNat_byte (n := v / 4096 % 0x40 + 0x80) (by omega)
    rw [if_neg h₃]
    refine ⟨_, _, rfl, ?_⟩
    rw [readChar, toNat_ofNat_byte (n := v / 262144 % 0x08 + 0xF0) (by omega), if_neg (by omega), firstByte,
      if_neg (by omega), if_neg (by omega), if_neg (by omega), if_pos (by omega)]
    dsimp only
    rw [List.cons_append, List.cons_append, List.cons_append,
      charEnd_more (by decide) (by rw [htail'']; split <;> split <;> omega), Pending.tail,
      charEnd_more (by decide) (by omega), Pending.tail, charEnd_last (by omega)]
    rfl

/-- The encoding of a text is valid. -/
theorem utf8Error_utf8 (t : Text) : utf8Error (utf8 t) = none := by
  induction t with
  | nil => rw [utf8, List.flatMap_nil, utf8Error]
  | cons c t ih =>
    obtain ⟨b, tail, hencode, hread⟩ := readChar_encodeChar c (utf8 t)
    have hcons : utf8 (c :: t) = b :: (tail ++ utf8 t) := by
      rw [utf8, List.flatMap_cons, hencode]
      rfl
    rw [hcons, utf8Error_cons, hread]
    dsimp only
    rw [Nat.add_sub_cancel, List.drop_left, ih]
    rfl

/-- `std::str::from_utf8`, with the message of its error. -/
def fromUtf8 (bytes : List UInt8) : Except String Text :=
  match utf8Error bytes with
  | none => .ok (utf8Lossy none bytes)
  | some ⟨validUpTo, some errorLen⟩ =>
    .error (s!"invalid utf-8 sequence of {errorLen} bytes from index {validUpTo}")
  | some ⟨validUpTo, none⟩ => .error (s!"incomplete utf-8 byte sequence from index {validUpTo}")

theorem fromUtf8_utf8 (t : Text) : fromUtf8 (utf8 t) = .ok t := by
  rw [fromUtf8, utf8Error_utf8]
  dsimp only
  rw [utf8Lossy_encode]

end Zedspaces.Lib.Text
