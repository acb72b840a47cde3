/-
The requests of the editor on their way to a debug adapter (`Requests` of the Node attachment, and the receiving half
of `tunnel`). A request is framed by a header that ends in an empty line and names the length of the body. The bytes
arrive in messages that need not be frames. The limits on the header and on the buffer are checked against what happens
to be buffered, so a stream of valid frames gets through exactly if no message finds too much pending
(`dap_framing`).
-/
import Mathlib.Data.List.Infix
import Zedspaces.Lib.Fallible
import Zedspaces.Lib.Framing
import Zedspaces.Lib.Utf8

namespace Zedspaces.Supervisor

open Lib Lib.Text

/-- `MAX_FRAME` -/
def maxFrame : Nat := 8 * 1024 * 1024

def maxHeader : Nat := 8192

/-- `b"\r\n\r\n"` -/
def emptyLine : List UInt8 := [13, 10, 13, 10]

/-- `windows(pattern.len()).position(..)`: where the pattern is first found. -/
def position (pattern : List UInt8) : List UInt8 → Option Nat
  | [] => none
  | b :: bytes => if pattern.isPrefixOf (b :: bytes) then some 0 else (position pattern bytes).map (· + 1)

/-- `str::lines`: a line ends in a newline, with or without a carriage return; the last one need not. -/
def textLines (t : Text) : List Text :=
  (t.splitOn '\n').dropLast.map (fun line => if line.getLast? = some '\r' then line.dropLast else line) ++
    ((t.splitOn '\n').getLast?.toList.filter (· ≠ []))

/-- `usize::from_str`, one digit. -/
def usizeDigit (n : Nat) (c : Char) : Except String Nat :=
  if c.isDigit then
    if n * 10 + (c.toNat - 48) < 2 ^ 64 then .ok (n * 10 + (c.toNat - 48))
    else .error "number too large to fit in target type"
  else .error "invalid digit found in string"

/-- `usize::from_str` -/
def parseUsize : Text → Except String Nat
  | [] => .error "cannot parse integer from empty string"
  | ['+'] => .error "invalid digit found in string"
  | '+' :: digits => digits.foldlM usizeDigit 0
  | digits => digits.foldlM usizeDigit 0

/-- The value of a line that is a `Content-Length`. -/
def contentLengthValue (line : Text) : Option Text := do
  let (key, value) ← splitOnce ':' line
  if key.map Char.toLower = "content-length".toList then some (trim value) else none

/-- The length that a header names. -/
def contentLength (header : List UInt8) : Except String Nat := do
  let header ← fromUtf8 header
  match (textLines header).filterMap contentLengthValue with
  | [length] => parseUsize length
  | _ => .error "Expected one DAP Content-Length"

variable {V : Type} (fromSlice : List UInt8 → Except String V)

namespace Requests

/-- `Requests::push` -/
def push (buffer bytes : List UInt8) : Except String (List UInt8) :=
  if buffer.length + bytes.length ≤ maxFrame * 2 then .ok (buffer ++ bytes) else .error "DAP input too large"

/-- `Requests::next`, with `serde_json::from_slice` for the body. -/
def next (buffer : List UInt8) : Except String (Option (V × List UInt8)) :=
  match position emptyLine buffer with
  | none => if buffer.length ≤ maxHeader then .ok none else .error "DAP header too large"
  | some fin =>
    if maxHeader < fin then .error "DAP header too large"
    else do
      let length ← contentLength (buffer.take fin)
      if ¬ (0 < length ∧ length ≤ maxFrame) then .error "Invalid DAP content length"
      else if buffer.length < fin + 4 + length then .ok none
      else do
        let value ← fromSlice ((buffer.take (fin + 4 + length)).drop (fin + 4))
        .ok (some (value, buffer.drop (fin + 4 + length)))

/-- A request takes its bytes off the buffer. -/
theorem next_shorter {buffer rest : List UInt8} {value : V} (h : next fromSlice buffer = .ok (some (value, rest))) :
    rest.length < buffer.length := by
  unfold next at h
  split at h
  · split at h <;> cases h
  · split at h
    · cases h
    · obtain ⟨length, -, h⟩ := bind_eq_ok h
      split at h
      · cases h
      · split at h
        · cases h
        · next hpos hlen =>
          obtain ⟨_, -, h⟩ := bind_eq_ok h
          cases h
          rw [List.length_drop]
          omega

/-- The requests at the front of the buffer. -/
def decoder : Decoder UInt8 V String := ⟨next fromSlice, next_shorter fromSlice⟩

/-- The binary messages of the editor, as `tunnel` receives them: each is pushed, and the requests that are complete are
taken. -/
def receive (messages : List (List UInt8)) : List V × Except String (List UInt8) :=
  (decoder fromSlice).receive push [] messages

end Requests

/-! ## Frames -/

/-- A frame: a header of limited size that ends at its first empty line and names the length of the body once, and a
body that is JSON. -/
structure DapFrame where
  header : Text
  length : Text
  body : List UInt8
  value : V
  header_le : (utf8 header).length ≤ maxHeader
  header_line : ¬ emptyLine <:+: utf8 header ++ [13, 10, 13]
  one_length : (textLines header).filterMap contentLengthValue = [length]
  length_eq : parseUsize length = .ok body.length
  body_pos : 0 < body.length
  body_le : body.length ≤ maxFrame
  json : fromSlice body = .ok value

namespace DapFrame

variable {fromSlice} (f : DapFrame fromSlice)

def headerSize : Nat := (utf8 f.header).length + 4

def data : List UInt8 := utf8 f.header ++ emptyLine ++ f.body

end DapFrame

/-- A pattern that is nowhere is not found. -/
theorem position_eq_none {pattern bytes : List UInt8} (h : ¬ pattern <:+: bytes) : position pattern bytes = none := by
  induction bytes with
  | nil => rfl
  | cons b bytes ih =>
    have hhead : ¬ pattern.isPrefixOf (b :: bytes) = true := fun hp => h (List.isPrefixOf_iff_prefix.1 hp).isInfix
    have htail : ¬ pattern <:+: bytes := fun hp => h (hp.trans (List.suffix_cons b bytes).isInfix)
    rw [position, if_neg hhead, ih htail]
    rfl

/-- A pattern is found behind bytes with which it does not begin earlier. -/
theorem position_append {pattern bytes : List UInt8} (hne : pattern ≠ []) (h : ¬ pattern <:+: bytes ++ pattern.dropLast)
    (rest : List UInt8) : position pattern (bytes ++ pattern ++ rest) = some bytes.length := by
  induction bytes with
  | nil =>
    cases hp : pattern with
    | nil => exact absurd hp hne
    | cons p ps =>
      have hpre : (p :: ps).isPrefixOf (p :: (ps ++ rest)) = true := List.isPrefixOf_iff_prefix.2 ⟨rest, rfl⟩
      exact if_pos hpre
  | cons b bytes ih =>
    have hlen : pattern.length ≤ (b :: bytes ++ pattern.dropLast).length := by
      have hpos : 0 < pattern.length := List.length_pos_iff.2 hne
      rw [List.length_append, List.length_cons, List.length_dropLast]
      omega
    have hhead : ¬ pattern.isPrefixOf (b :: (bytes ++ pattern ++ rest)) = true := by
      intro hp
      refine h (List.IsPrefix.isInfix (List.prefix_of_prefix_length_le (List.isPrefixOf_iff_prefix.1 hp) ?_ hlen))
      refine ⟨[pattern.getLast hne] ++ rest, ?_⟩
      rw [List.append_assoc, ← List.append_assoc pattern.dropLast, List.dropLast_concat_getLast]
      simp only [List.cons_append, List.append_assoc]
    have htail : ¬ pattern <:+: bytes ++ pattern.dropLast := fun hp => h (hp.trans (List.suffix_cons b _).isInfix)
    show position pattern (b :: (bytes ++ pattern ++ rest)) = _
    rw [position, if_neg hhead, ih htail]
    rfl

namespace Requests

variable {fromSlice} (f : DapFrame fromSlice)

/-- A buffer with a complete header: the request is complete or more is needed. -/
theorem next_header (more : List UInt8) : next fromSlice (utf8 f.header ++ emptyLine ++ more) =
    if more.length < f.body.length then .ok none
    else (fromSlice (more.take f.body.length)).map fun value => some (value, more.drop f.body.length) := by
  have hfound : position emptyLine (utf8 f.header ++ emptyLine ++ more) = some (utf8 f.header).length :=
    position_append (List.cons_ne_nil _ _) f.header_line more
  have hheader : (utf8 f.header ++ emptyLine ++ more).take (utf8 f.header).length = utf8 f.header := by
    rw [List.append_assoc, List.take_left]
  have hlength : contentLength (utf8 f.header) = .ok f.body.length := by
    rw [contentLength, fromUtf8_utf8]
    show (match (textLines f.header).filterMap contentLengthValue with
      | [length] => parseUsize length
      | _ => .error "Expected one DAP Content-Length") = _
    rw [f.one_length]
    exact f.length_eq
  have hsize : (utf8 f.header ++ emptyLine ++ more).length = (utf8 f.header).length + 4 + more.length := by
    rw [List.length_append, List.length_append]
    rfl
  have htotal (n : Nat) : (utf8 f.header).length + 4 + n = (utf8 f.header ++ emptyLine).length + n := by
    rw [List.length_append]
    rfl
  rw [next, hfound]
  dsimp only
  rw [if_neg (Nat.not_lt.2 f.header_le), hheader, hlength]
  show (if _ then _ else _) = _
  rw [if_neg (not_not.2 ⟨f.body_pos, f.body_le⟩), hsize]
  by_cases hlt : more.length < f.body.length
  · rw [if_pos (by omega), if_pos hlt]
  · have hbody : ((utf8 f.header ++ emptyLine ++ more).take ((utf8 f.header).length + 4 + f.body.length)).drop
        ((utf8 f.header).length + 4) = more.take f.body.length := by
      rw [htotal, List.take_length_add_append]
      exact List.drop_left' (List.length_append ..)
    have hrest : (utf8 f.header ++ emptyLine ++ more).drop ((utf8 f.header).length + 4 + f.body.length) =
        more.drop f.body.length := by
      rw [htotal, List.drop_length_add_append]
    rw [if_neg (by omega), if_neg hlt, hbody, hrest]
    cases fromSlice (more.take f.body.length) <;> rfl

/-- A part of a frame without the whole header. -/
theorem next_part {n : Nat} (h : n < f.headerSize) : next fromSlice (f.data.take n) =
    if n ≤ maxHeader then .ok none else .error "DAP header too large" := by
  have hpart : f.data.take n <+: utf8 f.header ++ [13, 10, 13] := by
    have hdata : f.data = utf8 f.header ++ [13, 10, 13] ++ (10 :: f.body) := by
      rw [DapFrame.data, List.append_assoc, List.append_assoc]
      rfl
    have hle : n ≤ (utf8 f.header ++ [13, 10, 13]).length := by
      rw [List.length_append]
      exact Nat.le_of_lt_succ h
    rw [hdata, List.take_append_of_le_length hle]
    exact List.take_prefix _ _
  have hnone : position emptyLine (f.data.take n) = none :=
    position_eq_none fun hline => f.header_line (hline.trans hpart.isInfix)
  have hlen : (f.data.take n).length = n := by
    rw [List.length_take, DapFrame.data, List.length_append, List.length_append]
    exact Nat.min_eq_left (Nat.le_trans (Nat.le_of_lt h) (Nat.le_add_right _ _))
  rw [next, hnone]
  dsimp only
  rw [hlen]

/-- A part of a frame with the whole header. -/
theorem next_part_of_headerSize_le {n : Nat} (h : f.headerSize ≤ n) (hn : n < f.data.length) :
    next fromSlice (f.data.take n) = .ok none := by
  have hlen : f.data.length = f.headerSize + f.body.length := by
    rw [DapFrame.data, List.length_append, List.length_append]
    rfl
  have htake : f.data.take n = utf8 f.header ++ emptyLine ++ f.body.take (n - f.headerSize) := by
    have hsize : n = (utf8 f.header ++ emptyLine).length + (n - f.headerSize) := by
      rw [List.length_append]
      show n = f.headerSize + _
      omega
    conv_lhs => rw [hsize]
    rw [DapFrame.data, List.take_length_add_append]
  rw [htake, next_header, if_pos]
  rw [List.length_take]
  omega

/-- The frames as the decoder finds them. -/
def frames : (decoder fromSlice).Frames (DapFrame fromSlice) where
  data := DapFrame.data
  value := DapFrame.value
  reads f rest := by
    show next fromSlice (f.data ++ rest) = _
    rw [DapFrame.data, List.append_assoc, next_header, if_neg (by rw [List.length_append]; omega), List.take_left,
      List.drop_left, f.json]
    rfl
  cut f n hn := by
    by_cases h : n < f.headerSize
    · have hpart := next_part f h
      by_cases hle : n ≤ maxHeader
      · exact .inl (hpart.trans (if_pos hle))
      · exact .inr ⟨_, hpart.trans (if_neg hle)⟩
    · exact .inl (next_part_of_headerSize_le f (Nat.not_lt.1 h) hn)

end Requests

/-- The bytes of a sequence of frames. -/
def dapStream {fromSlice : List UInt8 → Except String V} (frames : List (DapFrame fromSlice)) : List UInt8 :=
  Requests.frames.stream frames

/-- No message finds too much pending: with the part of a frame that is buffered it has room in the buffer, and of a
header that it leaves unfinished, its empty line included, no more than the limit on headers is buffered. -/
def WithinLimits {fromSlice : List UInt8 → Except String V} (frames : List (DapFrame fromSlice))
    (messages : List (List UInt8)) : Prop :=
  Requests.frames.Passes (fun pending added => pending + added ≤ maxFrame * 2)
    (fun f pending => pending < f.headerSize → pending ≤ maxHeader) frames 0 messages

/-- The frames get through exactly if the messages stay within the limits. -/
theorem Requests.receive_eq_iff {fromSlice : List UInt8 → Except String V} {frames : List (DapFrame fromSlice)}
    {messages : List (List UInt8)} (hcut : messages.flatten = dapStream frames) :
    receive fromSlice messages = (frames.map (·.value), .ok []) ↔ WithinLimits frames messages := by
  have hroom (buffer bytes : List UInt8) (h : buffer.length + bytes.length ≤ maxFrame * 2) :
      push buffer bytes = .ok (buffer ++ bytes) := if_pos h
  have hfull (buffer bytes : List UInt8) (h : ¬ buffer.length + bytes.length ≤ maxFrame * 2) :
      ∃ e, push buffer bytes = .error e := ⟨_, if_neg h⟩
  have hwaits (f : DapFrame fromSlice) (n : Nat) (hn : n < f.data.length) :
      (n < f.headerSize → n ≤ maxHeader) ↔ next fromSlice (f.data.take n) = .ok none := by
    by_cases h : n < f.headerSize
    · rw [next_part f h]
      by_cases hle : n ≤ maxHeader
      · simp [hle]
      · simp [h, hle]
    · exact iff_of_true (fun hlt => absurd hlt h) (next_part_of_headerSize_le f (Nat.not_lt.1 h) hn)
  exact Requests.frames.receive_iff rfl hroom hfull hwaits ⟨fun f _ => Requests.frames.data_pos f, fun _ => rfl⟩
    hcut.symm

/-- However the stream is cut, frames of limited size get through. -/
theorem withinLimits_of_small {fromSlice : List UInt8 → Except String V} {frames : List (DapFrame fromSlice)}
    {messages : List (List UInt8)} (hcut : messages.flatten = dapStream frames)
    (hmessages : ∀ bytes ∈ messages, bytes.length ≤ maxFrame)
    (hframes : ∀ f ∈ frames, f.headerSize ≤ maxHeader ∧ f.data.length ≤ maxFrame) : WithinLimits frames messages := by
  refine Requests.frames.passes_of hframes (fun f n hf _ hlt => ?_) (fun f n hf hlt bytes hbytes => ?_)
    (fun bytes hbytes => ?_) ⟨fun f _ => Requests.frames.data_pos f, fun _ => rfl⟩ ?_
  · exact Nat.le_trans (Nat.le_of_lt hlt) hf.1
  · have hpending : n < f.data.length := hlt
    have hadded := hmessages bytes hbytes
    have hsize := hf.2
    omega
  · have hadded := hmessages bytes hbytes
    omega
  · rw [hcut, Nat.zero_add]
    rfl

/-- A reader of the bodies that are an empty object with blanks before it. -/
def readEmptyObject (body : List UInt8) : Except String Unit :=
  if body.dropWhile (· = 32) = [123, 125] then .ok () else .error "expected an empty object"

theorem readEmptyObject_blanks (n : Nat) : readEmptyObject (List.replicate n 32 ++ [123, 125]) = .ok () := by
  have hdrop : (List.replicate n (32 : UInt8) ++ [123, 125]).dropWhile (fun b => decide (b = 32)) = [123, 125] := by
    induction n with
    | zero => rfl
    | succ n ih => exact ih
  exact if_pos hdrop

theorem length_blanks (n : Nat) : (List.replicate n (32 : UInt8) ++ [123, 125]).length = n + 2 := by
  rw [List.length_append, List.length_replicate]
  rfl

def smallFrame : DapFrame readEmptyObject where
  header := "Content-Length: 2".toList
  length := "2".toList
  body := [123, 125]
  value := ()
  header_le := by decide
  header_line := by decide
  one_length := by decide
  length_eq := rfl
  body_pos := by decide
  body_le := by decide
  json := rfl

/-- A body of the largest size. -/
def fullFrame : DapFrame readEmptyObject where
  header := "Content-Length: 8388608".toList
  length := "8388608".toList
  body := List.replicate 8388606 32 ++ [123, 125]
  value := ()
  header_le := by decide
  header_line := by decide
  one_length := by decide
  length_eq := by
    rw [length_blanks]
    rfl
  body_pos := by
    rw [length_blanks]
    decide
  body_le := by
    rw [length_blanks]
    decide
  json := readEmptyObject_blanks _

theorem length_fullFrame : fullFrame.data.length = 8388635 := by
  have hheader : (utf8 fullFrame.header ++ emptyLine).length = 27 := by decide
  have hbody : fullFrame.body.length = 8388608 := length_blanks 8388606
  rw [DapFrame.data, List.length_append, hheader, hbody]

/-! ## Streams and cuttings -/

/-- However the stream is cut, its frames are read in order and nothing else exactly if the messages stay within the
limits. -/
theorem dap_framing {fromSlice : List UInt8 → Except String V} (frames : List (DapFrame fromSlice))
    (messages : List (List UInt8)) (hcut : messages.flatten = dapStream frames) :
    Requests.receive fromSlice messages = (frames.map (·.value), .ok []) ↔ WithinLimits frames messages :=
  Requests.receive_eq_iff hcut

theorem dap_framing_small : Requests.receive readEmptyObject
    ["Content-Length: 2\r\n\r".toList.flatMap String.utf8EncodeChar, [10, 123], [125]] = ([()], .ok []) :=
  (dap_framing [smallFrame] _ (by decide)).2 (withinLimits_of_small (by decide) (by decide) (by decide))

/-- Two largest bodies, cut so that the second message leaves one byte more than the largest pending. -/
def fullMessages : List (List UInt8) :=
  [(dapStream [fullFrame, fullFrame]).take 8388608, ((dapStream [fullFrame, fullFrame]).drop 8388608).take 1,
    ((dapStream [fullFrame, fullFrame]).drop 8388609).take 8388608, (dapStream [fullFrame, fullFrame]).drop 16777217]

/-- The third of these messages is refused, although the stream is valid. -/
theorem full_frames_refused : fullMessages.flatten = dapStream [fullFrame, fullFrame] ∧
    (∀ bytes ∈ fullMessages, bytes.length ≤ maxFrame) ∧
    Requests.receive readEmptyObject fullMessages = ([], .error "DAP input too large") := by
  have hstream : dapStream [fullFrame, fullFrame] = fullFrame.data ++ fullFrame.data := by
    show fullFrame.data ++ (fullFrame.data ++ []) = _
    rw [List.append_nil]
  have hlen : (fullFrame.data ++ fullFrame.data).length = 16777270 := by
    rw [List.length_append, length_fullFrame]
  have hheader : fullFrame.headerSize = 27 := by decide
  have hpart (n : Nat) (hn : 27 ≤ n ∧ n < 8388635) :
      (Requests.decoder readEmptyObject).next ((fullFrame.data ++ fullFrame.data).take n) = .ok none := by
    rw [List.take_append_of_le_length (by rw [length_fullFrame]; omega)]
    exact Requests.next_part_of_headerSize_le fullFrame (by omega) (by rw [length_fullFrame]; omega)
  unfold fullMessages
  rw [hstream]
  generalize fullFrame.data ++ fullFrame.data = stream at *
  have hsecond : stream.take 8388608 ++ (stream.drop 8388608).take 1 = stream.take 8388609 := List.take_add.symm
  have hthird : stream.take 8388609 ++ (stream.drop 8388609).take 8388608 = stream.take 16777217 := List.take_add.symm
  refine ⟨?_, ?_, ?_⟩
  · simp only [List.flatten_cons, List.flatten_nil, List.append_nil]
    rw [← List.append_assoc, hsecond, ← List.append_assoc, hthird, List.take_append_drop]
  · simp only [List.mem_cons, List.not_mem_nil, or_false, forall_eq_or_imp, forall_eq, List.length_take,
      List.length_drop, hlen, maxFrame]
    omega
  · have hpush₁ : Requests.push [] (stream.take 8388608) = .ok (stream.take 8388608) :=
      if_pos (by rw [List.length_take, hlen]; decide)
    have hpush₂ : Requests.push (stream.take 8388608) ((stream.drop 8388608).take 1) = .ok (stream.take 8388609) := by
      rw [← hsecond]
      exact if_pos (by rw [List.length_take, List.length_take, List.length_drop, hlen]; decide)
    have hpush₃ : Requests.push (stream.take 8388609) ((stream.drop 8388609).take 8388608) =
        .error "DAP input too large" :=
      if_neg (by rw [List.length_take, List.length_take, List.length_drop, hlen]; decide)
    rw [Requests.receive, Decoder.receive_wait hpush₁ (hpart 8388608 (by omega)),
      Decoder.receive_wait hpush₂ (hpart 8388609 (by omega)), Decoder.receive_full hpush₃]

end Zedspaces.Supervisor
