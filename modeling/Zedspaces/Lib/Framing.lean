/-
Frames in a stream that arrives in pieces. A decoder looks at the front of a buffer and finds a frame there, or needs
more, or fails (`Decoder`); after each piece it is asked until it needs more (`drain`, `receive`). Whether all frames
get through depends on the pieces only where the buffer has no room for one, or where the decoder fails on a part of a
frame (`Passes`, `receive_iff`).
-/
import Mathlib.Data.List.Basic

namespace Zedspaces.Lib

/-- What is made of the front of a buffer: a value and what is behind it, or that more is needed, or an error. -/
structure Decoder (α β ε : Type) where
  next : List α → Except ε (Option (β × List α))
  shorter : ∀ {buffer value rest}, next buffer = .ok (some (value, rest)) → rest.length < buffer.length

namespace Decoder

variable {α β ε φ : Type} (d : Decoder α β ε)

/-- The values at the front of a buffer, and what is left, unless one fails. -/
def drain (buffer : List α) : List β × Except ε (List α) :=
  match _h : d.next buffer with
  | .error e => ([], .error e)
  | .ok none => ([], .ok buffer)
  | .ok (some (value, rest)) => (value :: (drain rest).1, (drain rest).2)
termination_by buffer.length
decreasing_by all_goals exact d.shorter _h

/-- Each piece is pushed behind what is left, and the values at the front are taken. -/
def receive (push : List α → List α → Except ε (List α)) (buffer : List α) : List (List α) → List β × Except ε (List α)
  | [] => ([], .ok buffer)
  | piece :: pieces =>
    match push buffer piece with
    | .error e => ([], .error e)
    | .ok buffer =>
      match d.drain buffer with
      | (values, .error e) => (values, .error e)
      | (values, .ok buffer) => (values ++ (receive push buffer pieces).1, (receive push buffer pieces).2)

variable {d} {buffer rest : List α} {value : β} {e : ε}

theorem drain_some (h : d.next buffer = .ok (some (value, rest))) :
    d.drain buffer = (value :: (d.drain rest).1, (d.drain rest).2) := by
  rw [drain]
  split <;> rename_i h' <;> rw [h'] at h <;> cases h
  rfl

theorem drain_none (h : d.next buffer = .ok none) : d.drain buffer = ([], .ok buffer) := by
  rw [drain]
  split <;> simp_all

theorem drain_error (h : d.next buffer = .error e) : d.drain buffer = ([], .error e) := by
  rw [drain]
  split <;> rename_i h' <;> rw [h'] at h <;> cases h
  rfl

variable {push : List α → List α → Except ε (List α)} {buffer' piece : List α} {pieces : List (List α)}

theorem receive_wait (hpush : push buffer piece = .ok buffer') (h : d.next buffer' = .ok none) :
    d.receive push buffer (piece :: pieces) = d.receive push buffer' pieces := by
  rw [receive, hpush]
  dsimp only
  rw [drain_none h]
  rfl

theorem receive_full (hpush : push buffer piece = .error e) :
    d.receive push buffer (piece :: pieces) = ([], .error e) := by
  rw [receive, hpush]

/-! ## Frames -/

variable (d φ) in
/-- The frames of a decoder: each is read whatever is behind it, and no value is made of a part of it. -/
structure Frames where
  data : φ → List α
  value : φ → β
  reads : ∀ f rest, d.next (data f ++ rest) = .ok (some (value f, rest))
  cut : ∀ f n, n < (data f).length → d.next ((data f).take n) = .ok none ∨ ∃ e, d.next ((data f).take n) = .error e

namespace Frames

variable (F : d.Frames φ) {f : φ} {fs : List φ} {n held : Nat}

def stream (fs : List φ) : List α := fs.flatMap F.data

@[simp] theorem stream_nil : F.stream [] = [] := rfl

@[simp] theorem stream_cons : F.stream (f :: fs) = F.data f ++ F.stream fs := List.flatMap_cons

theorem data_pos (f : φ) : 0 < (F.data f).length := by
  have h := d.shorter (F.reads f [])
  rw [List.append_nil] at h
  exact Nat.zero_lt_of_lt h

/-- The frames at the front of a buffer are drained. -/
theorem drain_append (fs : List φ) (rest : List α) :
    d.drain (F.stream fs ++ rest) = (fs.map F.value ++ (d.drain rest).1, (d.drain rest).2) := by
  induction fs with
  | nil => rfl
  | cons f fs ih =>
    rw [stream_cons, List.append_assoc, drain_some (F.reads f _), ih]
    rfl

/-- The frames that are not complete after so many elements, and how many of these are of the first of them. -/
def settle : List φ → Nat → List φ × Nat
  | [], n => ([], n)
  | f :: fs, n => if (F.data f).length ≤ n then settle fs (n - (F.data f).length) else (f :: fs, n)

/-- The elements are part of the first frame. -/
def Part (fs : List φ) (n : Nat) : Prop := (∀ f ∈ fs.head?, n < (F.data f).length) ∧ (fs = [] → n = 0)

/-- The complete frames are in front of the part. -/
theorem settle_spec (hn : n ≤ (F.stream fs).length) : F.Part (F.settle fs n).1 (F.settle fs n).2 ∧
    ∃ done, fs = done ++ (F.settle fs n).1 ∧ n = (F.stream done).length + (F.settle fs n).2 := by
  induction fs generalizing n with
  | nil => exact ⟨⟨fun _ h => (Option.some_ne_none _ h.symm).elim, fun _ => Nat.le_zero.1 hn⟩, [], rfl, (Nat.zero_add n).symm⟩
  | cons f fs ih =>
    rw [stream_cons, List.length_append] at hn
    rw [settle]
    split
    · next hle =>
      obtain ⟨hpart, done, hdone, hlen⟩ := ih (n := n - (F.data f).length) (by omega)
      refine ⟨hpart, f :: done, congrArg (f :: ·) hdone, ?_⟩
      rw [stream_cons, List.length_append]
      omega
    · next hlt =>
      refine ⟨⟨fun g hg => ?_, fun h => absurd h (List.cons_ne_nil f fs)⟩, [], rfl, (Nat.zero_add n).symm⟩
      cases hg
      exact Nat.lt_of_not_le hlt

theorem stream_append (fs gs : List φ) : F.stream (fs ++ gs) = F.stream fs ++ F.stream gs := List.flatMap_append

/-- A part of the frames is a part of the first one. -/
theorem take_part (h : F.Part (f :: fs) n) : (F.stream (f :: fs)).take n = (F.data f).take n := by
  have hlt : n < (F.data f).length := h.1 f rfl
  rw [stream_cons, List.take_append_of_le_length (Nat.le_of_lt hlt)]

/-! ## Pieces -/

variable (room : Nat → Nat → Prop) (waits : φ → Nat → Prop)

/-- There is room for each piece, and the decoder waits on each part of a frame that a piece leaves. -/
def Passes : List φ → Nat → List (List α) → Prop
  | _, _, [] => True
  | fs, held, piece :: pieces => room held piece.length ∧
    (∀ f ∈ (F.settle fs (held + piece.length)).1.head?, waits f (F.settle fs (held + piece.length)).2) ∧
    Passes (F.settle fs (held + piece.length)).1 (F.settle fs (held + piece.length)).2 pieces

variable {room waits}

/-- What a decoder does with a part of the frames. -/
theorem drain_part (hidle : d.next [] = .ok none)
    (hwaits : ∀ f n, n < (F.data f).length → (waits f n ↔ d.next ((F.data f).take n) = .ok none)) (h : F.Part fs n) :
    ((∀ f ∈ fs.head?, waits f n) ∧ d.drain ((F.stream fs).take n) = ([], .ok ((F.stream fs).take n))) ∨
      ((¬ ∀ f ∈ fs.head?, waits f n) ∧ ∃ e, d.drain ((F.stream fs).take n) = ([], .error e)) := by
  cases fs with
  | nil =>
    rw [stream_nil, List.take_nil]
    exact .inl ⟨fun _ h => (Option.some_ne_none _ h.symm).elim, drain_none hidle⟩
  | cons f fs =>
    have hlt : n < (F.data f).length := h.1 f rfl
    rw [F.take_part h]
    rcases F.cut f n hlt with hnone | ⟨e, herror⟩
    · refine .inl ⟨fun g hg => ?_, drain_none hnone⟩
      cases hg
      exact (hwaits f n hlt).2 hnone
    · refine .inr ⟨fun hall => ?_, e, drain_error herror⟩
      have hnone := (hwaits f n hlt).1 (hall f rfl)
      rw [herror] at hnone
      cases hnone

/-- All frames get through exactly if the pieces pass. -/
theorem receive_iff (hidle : d.next [] = .ok none)
    (hroom : ∀ buffer piece : List α, room buffer.length piece.length → push buffer piece = .ok (buffer ++ piece))
    (hfull : ∀ buffer piece : List α, ¬ room buffer.length piece.length → ∃ e, push buffer piece = .error e)
    (hwaits : ∀ f n, n < (F.data f).length → (waits f n ↔ d.next ((F.data f).take n) = .ok none))
    (hpart : F.Part fs held) (hcut : F.stream fs = (F.stream fs).take held ++ pieces.flatten) :
    d.receive push ((F.stream fs).take held) pieces = (fs.map F.value, .ok []) ↔ F.Passes room waits fs held pieces := by
  induction pieces generalizing fs held with
  | nil =>
    have hnil : fs = [] := by
      cases fs with
      | nil => rfl
      | cons f fs =>
        have hlt : held < (F.data f).length := hpart.1 f rfl
        have hlen := congrArg List.length hcut
        rw [List.flatten_nil, List.append_nil, List.length_take, stream_cons, List.length_append] at hlen
        omega
    subst hnil
    rw [stream_nil, List.take_nil]
    exact ⟨fun _ => trivial, fun _ => rfl⟩
  | cons piece pieces ih =>
    have hheld : ((F.stream fs).take held).length = held := by
      rw [List.length_take]
      refine Nat.min_eq_left ?_
      cases fs with
      | nil => exact Nat.le_of_eq (hpart.2 rfl)
      | cons f fs =>
        have hlt : held < (F.data f).length := hpart.1 f rfl
        rw [stream_cons, List.length_append]
        omega
    rw [receive, Passes]
    by_cases hr : room held piece.length
    swap
    · obtain ⟨e, he⟩ := hfull ((F.stream fs).take held) piece (by rwa [hheld])
      rw [he]
      exact iff_of_false (by simp) fun h => hr h.1
    rw [hroom _ piece (by rwa [hheld])]
    dsimp only
    -- the buffer is the frames that the piece completes and the part behind them
    have hlen : held + piece.length ≤ (F.stream fs).length := by
      have h := congrArg List.length hcut
      rw [List.length_append, hheld, List.flatten_cons, List.length_append] at h
      omega
    obtain ⟨hpart', done, hdone, hn⟩ := F.settle_spec hlen
    generalize (F.settle fs (held + piece.length)).1 = fs' at *
    generalize (F.settle fs (held + piece.length)).2 = held' at *
    have hstream : F.stream fs = F.stream done ++ F.stream fs' := by rw [hdone, stream_append]
    have htake : (F.stream fs).take (held + piece.length) = (F.stream fs).take held ++ piece := by
      conv_lhs => rw [hcut]
      rw [List.flatten_cons, List.take_append, hheld, Nat.add_sub_cancel_left, List.take_left', List.take_of_length_le]
      · omega
      · rfl
    have hbuffer : (F.stream fs).take held ++ piece = F.stream done ++ (F.stream fs').take held' := by
      rw [← htake, hn, hstream, List.take_length_add_append]
    have hrest : F.stream fs' = (F.stream fs').take held' ++ pieces.flatten := by
      have hboth : F.stream done ++ F.stream fs' = F.stream done ++ ((F.stream fs').take held' ++ pieces.flatten) := by
        rw [← hstream, ← List.append_assoc, ← hbuffer, List.append_assoc, ← List.flatten_cons]
        exact hcut
      exact List.append_cancel_left hboth
    rw [hbuffer, F.drain_append]
    rcases F.drain_part hidle hwaits hpart' with ⟨hall, hdrain⟩ | ⟨hnot, e, hdrain⟩
    · rw [hdrain, hdone, List.map_append, List.append_nil]
      dsimp only
      rw [Prod.mk.injEq, List.append_cancel_left_eq, ← Prod.mk.injEq, ih hpart' hrest]
      exact ⟨fun h => ⟨hr, hall, h⟩, fun h => h.2.2⟩
    · rw [hdrain]
      exact iff_of_false (by simp) fun h => hnot h.2.1

/-- Pieces pass where there is room behind each part of a frame and the decoder waits on each. -/
theorem passes_of {P : φ → Prop} (hframes : ∀ f ∈ fs, P f)
    (hwaits : ∀ f n, P f → n < (F.data f).length → waits f n)
    (hroom : ∀ f n, P f → n < (F.data f).length → ∀ piece ∈ pieces, room n piece.length)
    (hfirst : ∀ piece ∈ pieces, room 0 piece.length)
    (hpart : F.Part fs held) (hcut : held + pieces.flatten.length = (F.stream fs).length) :
    F.Passes room waits fs held pieces := by
  induction pieces generalizing fs held with
  | nil => trivial
  | cons piece pieces ih =>
    rw [List.flatten_cons, List.length_append] at hcut
    have hle : held + piece.length ≤ (F.stream fs).length := by omega
    obtain ⟨hpart', done, hdone, hn⟩ := F.settle_spec hle
    have hmem : ∀ f ∈ (F.settle fs (held + piece.length)).1, P f := fun f hf =>
      hframes f (hdone ▸ List.mem_append_right _ hf)
    have hlen := congrArg (fun fs => (F.stream fs).length) hdone
    rw [stream_append, List.length_append] at hlen
    refine ⟨?_, fun f hf => hwaits f _ (hmem f (List.mem_of_mem_head? hf)) (hpart'.1 f hf), ih hmem
      (fun f n hf hlt piece h => hroom f n hf hlt piece (List.mem_cons_of_mem _ h))
      (fun piece h => hfirst piece (List.mem_cons_of_mem _ h)) hpart' (by omega)⟩
    cases fs with
    | nil =>
      rw [hpart.2 rfl]
      exact hfirst piece (List.mem_cons_self ..)
    | cons f fs => exact hroom f held (hframes f (List.mem_cons_self ..)) (hpart.1 f rfl) piece (List.mem_cons_self ..)

end Frames

end Decoder

end Zedspaces.Lib
