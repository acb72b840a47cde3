/-
The output of a debug adapter on its way to the editor (`forward_logs`). It is sent in messages of what one bounded read
gives: up to a newline, or 8 KiB. A character that a read leaves unfinished is kept for the next one, but not when the
read also holds an invalid sequence. The messages are the blocks of the bytes, whatever the reader's chunks are
(`forwardLogs_eq`), and their texts make up the text of the stream exactly if no such read ends inside a character that
goes on behind it (`adapter_text`).
-/
import Mathlib.Data.List.Infix
import Zedspaces.Lib.Fills
import Zedspaces.Lib.Utf8
import Zedspaces.Supervisor.LineReader

namespace Zedspaces.Supervisor

open Lib Lib.Text

def logCapacity : Nat := 8192

/-- What `try_send` finds: room, none, or that nobody receives any more. -/
inductive SendResult where
  | ok
  | full
  | closed
  deriving DecidableEq, Repr

/-- A message to the editor. -/
structure AdapterLog where
  log : String
  text : Text
  deriving DecidableEq, Repr

def droppedNotice (dropped : Nat) : Text :=
  '[' :: (toString dropped).toList ++ " adapter log chunks dropped]\n".toList

/-- `take(capacity).read_until(b'\n')`: the bytes that are read, unless a read fails. -/
def readUntil (capacity : Nat) (reader : List Fill) : Option (List UInt8 × List Fill) :=
  if capacity = 0 then some ([], reader)
  else match reader with
    | [] => some ([], [])
    | .interrupted :: _ => none
    | .failed :: _ => none
    | .data first rest :: reader =>
      match cutAt newline ((first :: rest).take capacity) with
      | (chunk, some _) => some (chunk ++ [newline], Fill.pushBack ((first :: rest).drop (chunk.length + 1)) reader)
      | (chunk, none) =>
        if capacity ≤ (first :: rest).length then some (chunk, Fill.pushBack ((first :: rest).drop capacity) reader)
        else (readUntil (capacity - (first :: rest).length) reader).map fun r => (chunk ++ r.1, r.2)

/-- How much of the line is sent: all of it, unless the stream goes on and it ends in an unfinished character. -/
def sentLength (line : List UInt8) (count : Nat) : Nat :=
  match utf8Error line with
  | some ⟨validUpTo, none⟩ => if count ≠ 0 then validUpTo else line.length
  | _ => line.length

/-- At the end of the stream all of the line is sent. -/
theorem sentLength_atEnd {line more : List UInt8} (h : more = []) :
    sentLength (line ++ more) more.length = (line ++ more).length := by
  subst h
  unfold sentLength
  split <;> rfl

theorem readUntil_size {capacity : Nat} {reader reader' : List Fill} {more : List UInt8}
    (h : readUntil capacity reader = some (more, reader')) :
    Fill.size reader' ≤ Fill.size reader ∧ (more ≠ [] → Fill.size reader' < Fill.size reader) := by
  induction reader generalizing capacity more reader' with
  | nil =>
    have heq : more = [] ∧ reader' = [] := by
      unfold readUntil at h
      split at h <;> cases h <;> exact ⟨rfl, rfl⟩
    rw [heq.1, heq.2]
    exact ⟨Nat.le_refl _, fun h => absurd rfl h⟩
  | cons fill reader ih =>
    unfold readUntil at h
    split at h
    · cases h; exact ⟨Nat.le_refl _, fun h => absurd rfl h⟩
    · next hcapacity =>
      cases fill with
      | interrupted => cases h
      | failed => cases h
      | data first rest =>
        dsimp only at h
        split at h
        · next chunk after hcut =>
          cases h
          have hpush := Fill.size_pushBack_le ((first :: rest).drop (chunk.length + 1)) reader
          rw [List.length_drop, List.length_cons] at hpush
          simp only [Fill.size]
          omega
        · next chunk hcut =>
          split at h
          · cases h
            have hpush := Fill.size_pushBack_le ((first :: rest).drop capacity) reader
            rw [List.length_drop, List.length_cons] at hpush
            simp only [Fill.size]
            omega
          · obtain ⟨⟨more', rest'⟩, hrest, he⟩ := Option.map_eq_some_iff.1 h
            cases he
            have hle := (ih hrest).1
            simp only [Fill.size]
            omega

/-- Every turn of the loop takes something from the stream or from the line. -/
theorem turn_decreases {capacity : Nat} {reader reader' : List Fill} {line line' more : List UInt8}
    (h : readUntil capacity reader = some (more, reader')) (hend : ¬ (more = [] ∧ line = []))
    (hline : more = [] → line' = []) :
    (2 * Fill.size reader' + if line' = [] then 0 else 1) < 2 * Fill.size reader + if line = [] then 0 else 1 := by
  obtain ⟨hle, hlt⟩ := readUntil_size h
  by_cases hmore : more = []
  · rw [if_pos (hline hmore), if_neg fun hnil => hend ⟨hmore, hnil⟩]
    omega
  · have := hlt hmore
    split <;> split <;> omega

section
variable (stream : String) (sends : Nat → SendResult)

/-- What is sent when the loop ends: that chunks were dropped, if the channel is open. -/
def finishLogs (sent dropped : Nat) : List AdapterLog :=
  if dropped = 0 then []
  else if sends sent = .closed then [] else [⟨stream, droppedNotice dropped⟩]

/-- The loop of `forward_logs`: the messages that get into the channel. `sent` counts the calls of `try_send`. There is
no result if `8192 - line.len()` underflows. -/
def forwardLogs (sent dropped : Nat) (line : List UInt8) (reader : List Fill) : Option (List AdapterLog) :=
  if logCapacity < line.length then none
  else match _h : readUntil (logCapacity - line.length) reader with
    | none => some (finishLogs stream sends sent dropped)
    | some (more, reader') =>
      if _hend : more = [] ∧ line = [] then some (finishLogs stream sends sent dropped)
      else if _hnone : sentLength (line ++ more) more.length = 0 then
        forwardLogs sent dropped (line ++ more) reader'
      else
        let text := utf8Lossy none ((line ++ more).take (sentLength (line ++ more) more.length))
        let text := if dropped = 0 then text else droppedNotice dropped ++ text
        let line := (line ++ more).drop (sentLength (line ++ more) more.length)
        match sends sent with
        | .ok => (forwardLogs (sent + 1) 0 line reader').map (⟨stream, text⟩ :: ·)
        | .full => forwardLogs (sent + 1) (dropped + 1) line reader'
        | .closed => some (finishLogs stream sends sent dropped)
termination_by 2 * Fill.size reader + if line = [] then 0 else 1
decreasing_by
  · refine turn_decreases _h _hend fun hnil => ?_
    rw [sentLength_atEnd hnil, List.length_eq_zero_iff] at _hnone
    exact _hnone
  all_goals
    refine turn_decreases _h _hend fun hnil => ?_
    rw [sentLength_atEnd hnil, List.drop_length]

end

/-! ## The blocks of a stream -/

/-- What one bounded read gives: up to a newline, or as much as there is room for. -/
def lineUpTo (limit : Nat) (bytes : List UInt8) : List UInt8 :=
  match cutAt newline (bytes.take limit) with
  | (line, some _) => line ++ [newline]
  | (line, none) => line

/-- The bytes of the first message: a read without the character it leaves unfinished, unless that is all. -/
def blockOf (bytes : List UInt8) : List UInt8 :=
  match utf8Error (lineUpTo logCapacity bytes) with
  | some ⟨validUpTo + 1, none⟩ => (lineUpTo logCapacity bytes).take (validUpTo + 1)
  | _ => lineUpTo logCapacity bytes

variable {limit capacity count : Nat} {bytes line more a b : List UInt8} {reader reader' : List Fill}

theorem lineUpTo_of_cut (h : bytes.take limit = a ++ newline :: b) (ha : newline ∉ a) :
    lineUpTo limit bytes = a ++ [newline] := by
  rw [lineUpTo, h, cutAt_append ha]

theorem lineUpTo_of_notMem (h : newline ∉ bytes.take limit) : lineUpTo limit bytes = bytes.take limit := by
  rw [lineUpTo, cutAt_of_notMem h]

/-- A read ends at a newline, or is as long as can be. -/
theorem lineUpTo_cases (limit : Nat) (bytes : List UInt8) :
    (∃ a b, bytes.take limit = a ++ newline :: b ∧ newline ∉ a ∧ lineUpTo limit bytes = a ++ [newline]) ∨
      newline ∉ bytes.take limit ∧ lineUpTo limit bytes = bytes.take limit := by
  rcases cutAt_cases newline (bytes.take limit) with ⟨h, -⟩ | ⟨a, b, h, ha, -⟩
  · exact .inr ⟨h, lineUpTo_of_notMem h⟩
  · exact .inl ⟨a, b, h, ha, lineUpTo_of_cut h ha⟩

theorem lineUpTo_isPrefix (limit : Nat) (bytes : List UInt8) : lineUpTo limit bytes <+: bytes := by
  rcases lineUpTo_cases limit bytes with ⟨a, b, h, -, hline⟩ | ⟨-, hline⟩
  · have hprefix : a ++ [newline] <+: bytes.take limit := ⟨b, by rw [h, List.append_assoc]; rfl⟩
    rw [hline]
    exact hprefix.trans (List.take_prefix limit bytes)
  · rw [hline]
    exact List.take_prefix limit bytes

theorem lineUpTo_ne_nil (hlimit : limit ≠ 0) (h : bytes ≠ []) : lineUpTo limit bytes ≠ [] := by
  rcases lineUpTo_cases limit bytes with ⟨a, b, -, -, hline⟩ | ⟨-, hline⟩
  · rw [hline]
    exact List.append_ne_nil_of_right_ne_nil a (List.cons_ne_nil _ _)
  · rw [hline, ne_eq, List.take_eq_nil_iff, not_or]
    exact ⟨hlimit, h⟩

/-- A read goes on behind what is there already. -/
theorem lineUpTo_append (h : newline ∉ a) (hle : a.length ≤ limit) (b : List UInt8) :
    lineUpTo limit (a ++ b) = a ++ lineUpTo (limit - a.length) b := by
  have htake : (a ++ b).take limit = a ++ b.take (limit - a.length) := by
    rw [List.take_append, List.take_of_length_le hle]
  rw [lineUpTo, lineUpTo, htake, cutAt_append_of_notMem h]
  generalize cutAt newline (b.take (limit - a.length)) = r
  rcases r with ⟨c, _ | d⟩
  · rfl
  · exact List.append_assoc ..

theorem blockOf_isPrefix (bytes : List UInt8) : blockOf bytes <+: bytes := by
  unfold blockOf
  split
  · exact (List.take_prefix _ _).trans (lineUpTo_isPrefix _ _)
  · exact lineUpTo_isPrefix _ _

theorem blockOf_ne_nil (h : bytes ≠ []) : blockOf bytes ≠ [] := by
  have hline : lineUpTo logCapacity bytes ≠ [] := lineUpTo_ne_nil (by decide) h
  unfold blockOf
  split
  · rw [ne_eq, List.take_eq_nil_iff, not_or]
    exact ⟨Nat.succ_ne_zero _, hline⟩
  · exact hline

/-- The bytes of the messages. -/
def blocks (bytes : List UInt8) : List (List UInt8) :=
  if _h : bytes = [] then [] else blockOf bytes :: blocks (bytes.drop (blockOf bytes).length)
termination_by bytes.length
decreasing_by
  have hblock := List.length_pos_iff.2 (blockOf_ne_nil _h)
  have hbytes := List.length_pos_iff.2 _h
  rw [List.length_drop]
  omega

theorem blocks_nil : blocks [] = [] := by rw [blocks, dif_pos rfl]

theorem blocks_of_ne_nil (h : bytes ≠ []) :
    blocks bytes = blockOf bytes :: blocks (bytes.drop (blockOf bytes).length) := by rw [blocks, dif_neg h]

theorem blockOf_append_drop (bytes : List UInt8) : blockOf bytes ++ bytes.drop (blockOf bytes).length = bytes :=
  (List.prefix_append_drop (blockOf_isPrefix bytes)).symm

theorem flatten_blocks (bytes : List UInt8) : (blocks bytes).flatten = bytes := by
  induction hn : bytes.length using Nat.strongRecOn generalizing bytes with
  | _ n ih =>
    by_cases h : bytes = []
    · rw [h, blocks_nil]; rfl
    · have hlt : (bytes.drop (blockOf bytes).length).length < n := by
        have hblock := List.length_pos_iff.2 (blockOf_ne_nil h)
        have hbytes := List.length_pos_iff.2 h
        rw [List.length_drop]
        omega
      rw [blocks_of_ne_nil h, List.flatten_cons, ih _ hlt _ rfl, blockOf_append_drop]

/-! ## One turn of the loop -/

/-- A bounded read of a stream whose reads all succeed. -/
theorem readUntil_eq (hcapacity : capacity ≠ 0) (hdata : ∀ fill ∈ reader, Fill.isData fill = true) :
    ∃ reader', readUntil capacity reader = some (lineUpTo capacity (Fill.bytes reader), reader') ∧
      lineUpTo capacity (Fill.bytes reader) ++ Fill.bytes reader' = Fill.bytes reader ∧
      ∀ fill ∈ reader', Fill.isData fill = true := by
  induction reader generalizing capacity with
  | nil =>
    have hline : lineUpTo capacity [] = [] := by rw [lineUpTo, List.take_nil]; rfl
    refine ⟨[], ?_, ?_, hdata⟩
    · unfold readUntil
      rw [if_neg hcapacity, Fill.bytes, hline]
    · rw [Fill.bytes, hline]; rfl
  | cons fill reader ih =>
    obtain ⟨hfill, hreader⟩ := List.forall_mem_cons.1 hdata
    cases fill with
    | interrupted => cases hfill
    | failed => cases hfill
    | data first rest =>
      have hbytes : Fill.bytes (.data first rest :: reader) = (first :: rest) ++ Fill.bytes reader := rfl
      unfold readUntil
      rw [if_neg hcapacity]
      dsimp only
      generalize first :: rest = chunk at hbytes ⊢
      rw [hbytes]
      rcases cutAt_cases newline (chunk.take capacity) with ⟨hnone, hcut⟩ | ⟨a, b, htake, ha, hcut⟩
      · rw [hcut]
        dsimp only
        by_cases hle : capacity ≤ chunk.length
        · have htake : (chunk ++ Fill.bytes reader).take capacity = chunk.take capacity := by
            rw [List.take_append_of_le_length hle]
          have hline : lineUpTo capacity (chunk ++ Fill.bytes reader) = chunk.take capacity := by
            rw [lineUpTo_of_notMem (by rw [htake]; exact hnone), htake]
          rw [if_pos hle, hline]
          refine ⟨_, rfl, ?_, Fill.isData_pushBack _ hreader⟩
          rw [Fill.bytes_pushBack, ← List.append_assoc, List.take_append_drop]
        · have hwhole : chunk.take capacity = chunk := List.take_of_length_le (by omega)
          rw [hwhole] at hnone
          have hroom : capacity - chunk.length ≠ 0 := by omega
          obtain ⟨reader', hread, happend, hdata'⟩ := ih hroom hreader
          rw [if_neg hle, hread, hwhole, lineUpTo_append hnone (by omega)]
          exact ⟨reader', rfl, by rw [List.append_assoc, happend], hdata'⟩
      · rw [hcut]
        dsimp only
        have hchunk : chunk = a ++ newline :: (b ++ chunk.drop capacity) := by
          conv => lhs; rw [← List.take_append_drop capacity chunk, htake]
          rw [List.append_assoc]; rfl
        have hline : lineUpTo capacity (chunk ++ Fill.bytes reader) = a ++ [newline] := by
          refine lineUpTo_of_cut (b := b ++ (Fill.bytes reader).take (capacity - chunk.length)) ?_ ha
          rw [List.take_append, htake, List.append_assoc]; rfl
        have hdrop : chunk.drop (a.length + 1) = b ++ chunk.drop capacity := by
          conv => lhs; rw [hchunk, List.drop_append]
          simp
        rw [hline]
        refine ⟨_, rfl, ?_, Fill.isData_pushBack _ hreader⟩
        rw [Fill.bytes_pushBack, hdrop]
        conv => rhs; rw [hchunk]
        simp

/-- What may be kept of a line: an unfinished character. -/
structure Carried (line : List UInt8) : Prop where
  length : line.length ≤ 3
  newline : newline ∉ line
  unfinished : line ≠ [] → utf8Error line = some ⟨0, none⟩

theorem carried_nil : Carried [] := ⟨by decide, nofun, fun h => absurd rfl h⟩

theorem sentLength_le (line : List UInt8) (count : Nat) : sentLength line count ≤ line.length := by
  unfold sentLength
  split
  · next v h =>
    split
    · exact Nat.le_of_lt (cutShort h).lt
    · exact Nat.le_refl _
  · exact Nat.le_refl _

theorem carried_drop (line : List UInt8) (count : Nat) : Carried (line.drop (sentLength line count)) := by
  unfold sentLength
  split
  · next v h =>
    split
    · obtain ⟨hlt, -, htail, hlength, hbytes⟩ := cutShort h
      refine ⟨hlength, fun hmem => absurd (hbytes _ hmem) (by decide), fun _ => htail⟩
    · rw [List.drop_length]; exact carried_nil
  · rw [List.drop_length]; exact carried_nil

/-- A read whose line goes on gives the first message, unless it gives none. -/
theorem take_sentLength (hcount : count ≠ 0) (hsent : sentLength (lineUpTo logCapacity bytes) count ≠ 0) :
    (lineUpTo logCapacity bytes).take (sentLength (lineUpTo logCapacity bytes) count) = blockOf bytes := by
  unfold blockOf
  unfold sentLength at hsent ⊢
  split
  · next v h =>
    rw [h] at hsent ⊢
    dsimp only at hsent ⊢
    rw [if_pos hcount] at hsent ⊢
    cases v with
    | zero => exact absurd rfl hsent
    | succ v => rfl
  · next hne =>
    rw [List.take_length]
    split
    · next v h => exact absurd h (hne _)
    · rfl

/-- What is left of a stream at its end is one message. -/
theorem blocks_carried (h : Carried line) (hne : line ≠ []) : blocks line = [line] := by
  have hlength := h.length
  have htake : line.take logCapacity = line := List.take_of_length_le (by unfold logCapacity; omega)
  have hline : lineUpTo logCapacity line = line := by
    rw [lineUpTo_of_notMem (by rw [htake]; exact h.newline), htake]
  have hblock : blockOf line = line := by rw [blockOf, hline, h.unfinished hne]
  rw [blocks_of_ne_nil hne, hblock, List.drop_length, blocks_nil]

section
variable {stream : String} {sends : Nat → SendResult} {sent dropped : Nat}

/-- One turn of the loop. -/
theorem forwardLogs_turn (hline : line.length ≤ logCapacity)
    (h : readUntil (logCapacity - line.length) reader = some (more, reader')) :
    forwardLogs stream sends sent dropped line reader =
      if more = [] ∧ line = [] then some (finishLogs stream sends sent dropped)
      else if sentLength (line ++ more) more.length = 0 then forwardLogs stream sends sent dropped (line ++ more) reader'
      else
        let text := utf8Lossy none ((line ++ more).take (sentLength (line ++ more) more.length))
        let text := if dropped = 0 then text else droppedNotice dropped ++ text
        let line := (line ++ more).drop (sentLength (line ++ more) more.length)
        match sends sent with
        | .ok => (forwardLogs stream sends (sent + 1) 0 line reader').map (⟨stream, text⟩ :: ·)
        | .full => forwardLogs stream sends (sent + 1) (dropped + 1) line reader'
        | .closed => some (finishLogs stream sends sent dropped) := by
  rw [forwardLogs, if_neg (Nat.not_lt.2 hline)]
  split
  · next hnone => cases h.symm.trans hnone
  · next more₂ reader₂ hsome =>
    cases h.symm.trans hsome
    rfl

/-- The capacity never underflows, whatever is read and whatever the channel does. -/
theorem exists_forwardLogs (hline : Carried line) :
    ∃ messages, forwardLogs stream sends sent dropped line reader = some messages := by
  induction hn : (2 * Fill.size reader + if line = [] then 0 else 1) using Nat.strongRecOn
    generalizing sent dropped line reader with
  | _ n ih =>
    have hle : line.length ≤ logCapacity := Nat.le_trans hline.length (by decide)
    cases hread : readUntil (logCapacity - line.length) reader with
    | none =>
      rw [forwardLogs, if_neg (Nat.not_lt.2 hle)]
      split
      · exact ⟨_, rfl⟩
      · next hsome => cases hread.symm.trans hsome
    | some r =>
      obtain ⟨more, reader'⟩ := r
      rw [forwardLogs_turn hle hread]
      by_cases hend : more = [] ∧ line = []
      · rw [if_pos hend]
        exact ⟨_, rfl⟩
      rw [if_neg hend]
      have hdecreases : ∀ line', (more = [] → line' = []) →
          (2 * Fill.size reader' + if line' = [] then 0 else 1) < n :=
        fun line' h => hn ▸ turn_decreases hread hend h
      have hcarried := carried_drop (line ++ more) more.length
      by_cases hzero : sentLength (line ++ more) more.length = 0
      · rw [hzero, List.drop_zero] at hcarried
        rw [if_pos hzero]
        refine ih _ (hdecreases _ fun hnil => ?_) hcarried rfl
        rwa [sentLength_atEnd hnil, List.length_eq_zero_iff] at hzero
      · have hrest := hdecreases ((line ++ more).drop (sentLength (line ++ more) more.length)) fun hnil => by
          rw [sentLength_atEnd hnil, List.drop_length]
        rw [if_neg hzero]
        dsimp only
        cases sends sent with
        | ok =>
          obtain ⟨messages, hmessages⟩ := ih _ hrest hcarried rfl
          exact ⟨_, by rw [hmessages]; rfl⟩
        | full => exact ih _ hrest hcarried rfl
        | closed => exact ⟨_, rfl⟩

/-- The messages that get into an open channel with room are the blocks of the stream. -/
theorem forwardLogs_eq (hok : ∀ k, sends k = .ok) (hline : Carried line)
    (hdata : ∀ fill ∈ reader, Fill.isData fill = true) : forwardLogs stream sends sent 0 line reader =
      some ((blocks (line ++ Fill.bytes reader)).map fun block => ⟨stream, utf8Lossy none block⟩) := by
  induction hn : (2 * Fill.size reader + if line = [] then 0 else 1) using Nat.strongRecOn
    generalizing sent line reader with
  | _ n ih =>
    have hle : line.length ≤ logCapacity := Nat.le_trans hline.length (by decide)
    have hroom : logCapacity - line.length ≠ 0 := by
      have := hline.length
      unfold logCapacity
      omega
    obtain ⟨reader', hread, happend, hdata'⟩ := readUntil_eq hroom hdata
    have hwhole : line ++ lineUpTo (logCapacity - line.length) (Fill.bytes reader) =
        lineUpTo logCapacity (line ++ Fill.bytes reader) := (lineUpTo_append hline.newline hle _).symm
    generalize hmore : lineUpTo (logCapacity - line.length) (Fill.bytes reader) = more at hread happend hwhole
    rw [forwardLogs_turn hle hread]
    by_cases hend : more = [] ∧ line = []
    · -- the end of the stream
      have hnil : line ++ Fill.bytes reader = [] := by
        by_contra hne
        refine lineUpTo_ne_nil (by decide : logCapacity ≠ 0) hne ?_
        rw [← hwhole, hend.1, hend.2]
        rfl
      rw [if_pos hend, hnil, blocks_nil]
      rfl
    rw [if_neg hend]
    have hdecreases : ∀ line', (more = [] → line' = []) →
        (2 * Fill.size reader' + if line' = [] then 0 else 1) < n :=
      fun line' h => hn ▸ turn_decreases hread hend h
    have hcarried := carried_drop (line ++ more) more.length
    by_cases hzero : sentLength (line ++ more) more.length = 0
    · -- all that has been read is an unfinished character
      rw [hzero, List.drop_zero] at hcarried
      rw [if_pos hzero, ih _ (hdecreases _ fun hnil => ?_) hcarried hdata' rfl, List.append_assoc, happend]
      rwa [sentLength_atEnd hnil, List.length_eq_zero_iff] at hzero
    · have hrest := hdecreases ((line ++ more).drop (sentLength (line ++ more) more.length)) fun hnil => by
        rw [sentLength_atEnd hnil, List.drop_length]
      rw [if_neg hzero]
      dsimp only
      rw [hok sent]
      dsimp only
      rw [ih _ hrest hcarried hdata' rfl, if_pos rfl, Option.map_some]
      suffices hblocks : blocks (line ++ Fill.bytes reader) = (line ++ more).take (sentLength (line ++ more) more.length) ::
          blocks ((line ++ more).drop (sentLength (line ++ more) more.length) ++ Fill.bytes reader') by
        rw [hblocks]; rfl
      by_cases hmoreNil : more = []
      · -- the rest of the stream is what was carried
        have hbytes : Fill.bytes reader = [] := by
          by_contra hne
          exact lineUpTo_ne_nil hroom hne (hmore.trans hmoreNil)
        have hbytes' : Fill.bytes reader' = [] := by rwa [hmoreNil, List.nil_append, hbytes] at happend
        rw [sentLength_atEnd hmoreNil, List.take_length, List.drop_length, hbytes, hbytes', hmoreNil, List.append_nil,
          List.append_nil, blocks_nil, blocks_carried hline fun hnil => hend ⟨hmoreNil, hnil⟩]
      · have hcount : more.length ≠ 0 := fun h => hmoreNil (List.length_eq_zero_iff.1 h)
        have hne : line ++ Fill.bytes reader ≠ [] := by
          rw [← happend, ← List.append_assoc]
          exact List.append_ne_nil_of_left_ne_nil (List.append_ne_nil_of_right_ne_nil line hmoreNil) _
        have hblock := take_sentLength hcount (hwhole ▸ hzero)
        rw [← hwhole] at hblock
        have hlength : (blockOf (line ++ Fill.bytes reader)).length = sentLength (line ++ more) more.length := by
          rw [← hblock, List.length_take]
          exact Nat.min_eq_left (sentLength_le _ _)
        rw [blocks_of_ne_nil hne, hlength, hblock, ← happend, ← List.append_assoc,
          List.drop_append_of_le_length (sentLength_le _ _)]

end

/-! ## The text of the messages -/

/-- A full read that holds an invalid sequence and ends inside a character that goes on behind it. -/
def SplitsCharacter (block rest : List UInt8) : Prop :=
  block.length = logCapacity ∧ (∃ v n, utf8Error block = some ⟨v, some n⟩) ∧ GoesOn (lossyRun none block).2 rest

/-- None of the reads does that. -/
def KeepsCharacters : List (List UInt8) → Prop
  | [] => True
  | block :: rest => ¬ SplitsCharacter block rest.flatten ∧ KeepsCharacters rest

theorem not_goesOn_nil (p : Option Pending) : ¬ GoesOn p [] := fun h => h

theorem not_goesOn_none (bytes : List UInt8) : ¬ GoesOn none bytes := by
  cases bytes with
  | nil => exact not_goesOn_nil none
  | cons b bytes => rintro ⟨q, hq, -⟩; cases hq

/-- A message ends inside a character that goes on only if it is such a read. -/
theorem goesOn_blockOf (bytes : List UInt8) :
    GoesOn (lossyRun none (blockOf bytes)).2 (bytes.drop (blockOf bytes).length) ↔
      SplitsCharacter (blockOf bytes) (bytes.drop (blockOf bytes).length) := by
  refine ⟨fun h => ?_, fun h => h.2.2⟩
  generalize hline : lineUpTo logCapacity bytes = line
  cases herror : utf8Error line with
  | none =>
    have hblock : blockOf bytes = line := by rw [blockOf, hline, herror]
    rw [hblock, lossyRun_of_utf8Error herror] at h
    exact absurd h (not_goesOn_none _)
  | some e =>
    obtain ⟨v, _ | n⟩ := e
    · have hcut := cutShort herror
      cases v with
      | zero =>
        -- the whole of the line is unfinished, so there is nothing behind it
        have hblock : blockOf bytes = line := by rw [blockOf, hline, herror]
        rcases lineUpTo_cases logCapacity bytes with ⟨a, b, -, -, hend⟩ | ⟨-, hend⟩
        · have hmem : newline ∈ line := by
            rw [← hline, hend]
            exact List.mem_append_right _ (List.mem_singleton_self _)
          exact absurd (hcut.notAscii newline hmem) (by decide)
        · have hlength := hcut.length
          rw [List.drop_zero, ← hline, hend, List.length_take] at hlength
          have hall : bytes.drop (blockOf bytes).length = [] := by
            rw [hblock, ← hline, hend, List.length_take, List.drop_eq_nil_iff]
            unfold logCapacity at hlength ⊢
            omega
          rw [hall] at h
          exact h.elim
      | succ v =>
        have hblock : blockOf bytes = line.take (v + 1) := by rw [blockOf, hline, herror]
        rw [hblock, hcut.clean] at h
        exact absurd h (not_goesOn_none _)
    · have hblock : blockOf bytes = line := by
        rw [blockOf, hline, herror]
        cases v <;> rfl
      refine ⟨?_, ⟨v, n, by rw [hblock, herror]⟩, h⟩
      rw [hblock] at h ⊢
      rcases lineUpTo_cases logCapacity bytes with ⟨a, b, -, -, hend⟩ | ⟨-, hend⟩
      · have hnone : (lossyRun none line).2 = none := by
          rw [← hline, hend, lossyRun_append]
          exact lossyRun_ascii (takesTail_lossyRun takesTail_none a) (by decide)
        rw [hnone] at h
        exact absurd h (not_goesOn_none _)
      · have hlength : line.length = min logCapacity bytes.length := by rw [← hline, hend, List.length_take]
        by_contra hne
        have hall : bytes.drop line.length = [] := List.drop_eq_nil_iff.2 (by omega)
        rw [hall] at h
        exact h.elim

theorem cleanCuts_blocks (bytes : List UInt8) : CleanCuts (blocks bytes) ↔ KeepsCharacters (blocks bytes) := by
  induction hn : bytes.length using Nat.strongRecOn generalizing bytes with
  | _ n ih =>
    by_cases h : bytes = []
    · rw [h, blocks_nil]
      exact Iff.rfl
    · have hlt : (bytes.drop (blockOf bytes).length).length < n := by
        have hblock := List.length_pos_iff.2 (blockOf_ne_nil h)
        have hbytes := List.length_pos_iff.2 h
        rw [List.length_drop]
        omega
      rw [blocks_of_ne_nil h, CleanCuts, KeepsCharacters, flatten_blocks, goesOn_blockOf, ih _ hlt _ rfl]

/-- In a short stream there is no full read that something follows. -/
theorem keepsCharacters_of_short {pieces : List (List UInt8)} (h : pieces.flatten.length ≤ logCapacity) :
    KeepsCharacters pieces := by
  induction pieces with
  | nil => trivial
  | cons piece pieces ih =>
    rw [List.flatten_cons, List.length_append] at h
    refine ⟨fun ⟨hfull, _, hon⟩ => ?_, ih (by omega)⟩
    have hnil : pieces.flatten = [] := List.length_eq_zero_iff.1 (by omega)
    rw [hnil] at hon
    exact hon

/-- The loop comes to its end and its capacity never underflows. In an open channel that takes every message, the texts
make up the text of the stream exactly if no full read that holds an invalid sequence splits a character. -/
theorem adapter_text (stream : String) (sends : Nat → SendResult) (reader : List Fill) :
    (∃ messages, forwardLogs stream sends 0 0 [] reader = some messages) ∧
    ((∀ k, sends k = .ok) → (∀ fill ∈ reader, Fill.isData fill = true) →
      ∃ messages, forwardLogs stream sends 0 0 [] reader = some messages ∧
        (messages.flatMap AdapterLog.text = utf8Lossy none (Fill.bytes reader) ↔
          KeepsCharacters (blocks (Fill.bytes reader)))) := by
  refine ⟨exists_forwardLogs carried_nil, fun hok hdata => ?_⟩
  refine ⟨_, forwardLogs_eq hok carried_nil hdata, ?_⟩
  have hwhole := lossyPieces_eq (blocks (Fill.bytes reader))
  rw [flatten_blocks] at hwhole
  rw [List.nil_append, List.flatMap_map, hwhole, cleanCuts_blocks]

/-- A euro sign in two reads. -/
theorem adapter_text_euro : ∃ messages,
    forwardLogs "stderr" (fun _ => .ok) 0 0 [] [.data 0xE2 [0x82], .data 0xAC []] = some messages ∧
      messages.flatMap AdapterLog.text = ['€'] := by
  obtain ⟨messages, hmessages, htext⟩ := (adapter_text "stderr" (fun _ => .ok) [.data 0xE2 [0x82], .data 0xAC []]).2
    (fun _ => rfl) (by decide)
  exact ⟨messages, hmessages, htext.2 (keepsCharacters_of_short (by rw [flatten_blocks]; decide))⟩

/-- An invalid byte, and a euro sign that the first full read leaves unfinished. -/
def sampleFull : List UInt8 := 0xFF :: (List.replicate 8189 0x61 ++ [0xE2, 0x82])

theorem lossyRun_letters (n : Nat) : (lossyRun none (List.replicate n 0x61)).2 = none := by
  induction n with
  | zero => rfl
  | succ n ih => exact ih

theorem not_cleanCuts_sample : ¬ CleanCuts (blocks (sampleFull ++ [0xAC])) := by
  have hlength : sampleFull.length = logCapacity := by
    rw [sampleFull, List.length_cons, List.length_append, List.length_replicate]; rfl
  have hnewline : newline ∉ sampleFull := by
    intro h
    rw [sampleFull, List.mem_cons, List.mem_append] at h
    rcases h with h | h | h
    · exact absurd h (by decide)
    · exact absurd (List.eq_of_mem_replicate h) (by decide)
    · exact absurd h (by decide)
  have hline : lineUpTo logCapacity (sampleFull ++ [0xAC]) = sampleFull := by
    have htake : (sampleFull ++ [0xAC]).take logCapacity = sampleFull := by rw [← hlength, List.take_left]
    rw [lineUpTo_of_notMem (by rw [htake]; exact hnewline), htake]
  have herror : utf8Error sampleFull = some ⟨0, some 1⟩ := by
    unfold sampleFull
    generalize List.replicate 8189 0x61 ++ [0xE2, 0x82] = rest
    rw [utf8Error_cons]
    rfl
  have hblock : blockOf (sampleFull ++ [0xAC]) = sampleFull := by rw [blockOf, hline, herror]
  have hrun : (lossyRun none sampleFull).2 = (lossyRun none [0xE2, 0x82]).2 := by
    have hfirst : (lossyRun none [0xFF]).2 = none := rfl
    have hparts : sampleFull = [0xFF] ++ List.replicate 8189 0x61 ++ [0xE2, 0x82] := by
      rw [sampleFull, List.append_assoc, List.singleton_append]
    simp only [hparts, lossyRun_append, hfirst, lossyRun_letters]
  rw [blocks_of_ne_nil (List.append_ne_nil_of_right_ne_nil _ (List.cons_ne_nil _ _)), CleanCuts, flatten_blocks, hblock,
    List.drop_left, hrun]
  exact fun h => h.1 ⟨_, rfl, by decide⟩

/-- The euro sign comes out as three replacement characters. -/
theorem adapter_text_broken : ¬ ∀ (stream : String) (sends : Nat → SendResult) (reader : List Fill),
    (∀ k, sends k = .ok) → (∀ fill ∈ reader, Fill.isData fill = true) →
    ∃ messages, forwardLogs stream sends 0 0 [] reader = some messages ∧
      messages.flatMap AdapterLog.text = utf8Lossy none (Fill.bytes reader) := by
  intro h
  obtain ⟨messages, hmessages, htext⟩ := h "stderr" (fun _ => .ok)
    [.data 0xFF (List.replicate 8189 0x61 ++ [0xE2, 0x82]), .data 0xAC []] (fun _ => rfl) (by decide)
  have hbytes : Fill.bytes [.data 0xFF (List.replicate 8189 0x61 ++ [0xE2, 0x82]), .data 0xAC []] =
      sampleFull ++ [0xAC] := rfl
  rw [forwardLogs_eq (fun _ => rfl) carried_nil (by decide), List.nil_append, hbytes] at hmessages
  cases hmessages
  rw [List.flatMap_map, hbytes] at htext
  refine not_cleanCuts_sample ((lossyPieces_eq _).1 ?_)
  rw [flatten_blocks]
  exact htext

end Zedspaces.Supervisor
