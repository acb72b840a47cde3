/-
The lines of a child's output (`logs.rs`). A line is read from whatever chunks the reader hands out, up to its newline;
of a long line the head is kept. After some bytes of a line the loop's state is a function of these bytes alone
(`Partial`), so the lines that are read are the lines of the stream, whatever its chunks are (`pumpLines_eq`).
-/
import Zedspaces.Lib.Fills

namespace Zedspaces.Supervisor

open Lib

def maxLineBytes : Nat := 64 * 1024

def newline : UInt8 := 10

/-- The end of a `read_line_capped`: its result, the line in `out`, and what has not been read. An error carries
nothing the pump looks at. -/
structure LineRead where
  result : Except Unit (Option Bool)
  out : List UInt8
  rest : List Fill

/-- `out` with as much of the chunk as there is room for, and whether the line is cut. -/
def extendCapped (out chunk : List UInt8) (truncated : Bool) : List UInt8 × Bool :=
  let room := maxLineBytes - out.length
  if room < chunk.length then (out ++ chunk.take room, true) else (out ++ chunk, truncated)

/-- The loop of `read_line_capped`. -/
def readLineLoop (out : List UInt8) (truncated sawInput : Bool) : List Fill → LineRead
  | [] => ⟨.ok (if sawInput then some truncated else none), out, []⟩
  | .interrupted :: fills => readLineLoop out truncated sawInput fills
  | .failed :: fills => ⟨.error (), out, fills⟩
  | .data first rest :: fills =>
    match cutAt newline (first :: rest) with
    | (chunk, some remaining) =>
      let (out, truncated) := extendCapped out chunk truncated
      ⟨.ok (some truncated), out, Fill.pushBack remaining fills⟩
    | (chunk, none) =>
      let (out, truncated) := extendCapped out chunk truncated
      readLineLoop out truncated true fills

def readLineCapped (reader : List Fill) : LineRead := readLineLoop [] false false reader

/-- A line as it is read: its head, and whether that is not the whole. -/
def cappedLine (line : List UInt8) : List UInt8 × Bool := (line.take maxLineBytes, decide (maxLineBytes < line.length))

/-! ## One line -/

variable {line chunk bytes rest : List UInt8} {fills : List Fill}

/-- Room and flag are those of the whole line so far. -/
theorem extendCapped_eq (line chunk : List UInt8) :
    extendCapped (cappedLine line).1 chunk (cappedLine line).2 = cappedLine (line ++ chunk) := by
  simp only [extendCapped, cappedLine, List.length_take, List.length_append, List.take_append]
  generalize maxLineBytes = m
  split
  · next hroom =>
    refine Prod.ext ?_ (decide_eq_true (by omega)).symm
    have hmin : m - min m line.length = m - line.length := by omega
    rw [hmin]
  · next hroom =>
    refine Prod.ext ?_ ?_
    · rw [List.take_of_length_le (l := chunk) (by omega)]
    · rw [decide_eq_decide]
      omega

/-- What is read of a line, some bytes of which have been read: up to its newline the line and the stream behind it; up
to the end of the stream what there is; up to a failure nothing. -/
structure ReadsLine (line : List UInt8) (fills : List Fill) (r : LineRead) : Prop where
  ended : ∀ a b, cutAt newline (Fill.bytes fills) = (a, some b) →
    r.result = .ok (some (cappedLine (line ++ a)).2) ∧ r.out = (cappedLine (line ++ a)).1 ∧
      Fill.bytes r.rest = b ∧ Fill.fails r.rest = Fill.fails fills ∧ Fill.size r.rest < Fill.size fills
  failed : newline ∉ Fill.bytes fills → Fill.fails fills = true → r.result = .error ()
  atEnd : newline ∉ Fill.bytes fills → Fill.fails fills = false →
    r.out = (cappedLine (line ++ Fill.bytes fills)).1 ∧ r.rest = [] ∧
      r.result = .ok (if line ++ Fill.bytes fills = [] then none else some (cappedLine (line ++ Fill.bytes fills)).2)

theorem readsLine (line : List UInt8) (fills : List Fill) :
    ReadsLine line fills (readLineLoop (cappedLine line).1 (cappedLine line).2 (decide (line ≠ [])) fills) := by
  induction fills generalizing line with
  | nil =>
    refine ⟨nofun, fun _ h => absurd h Bool.false_ne_true, fun _ _ => ?_⟩
    simp only [readLineLoop, Fill.bytes, List.append_nil]
    by_cases hline : line = []
    · simp [hline]
    · simp [hline]
  | cons fill fills ih =>
    cases fill with
    | interrupted =>
      obtain ⟨hended, hfailed, hatEnd⟩ := ih line
      refine ⟨fun a b hcut => ?_, hfailed, hatEnd⟩
      obtain ⟨hresult, hout, hbytes, hfails, hsize⟩ := hended a b hcut
      exact ⟨hresult, hout, hbytes, hfails, Nat.lt_add_left 1 hsize⟩
    | failed => exact ⟨nofun, fun _ _ => rfl, fun _ h => absurd h.symm Bool.false_ne_true⟩
    | data first rest =>
      have hbytes : Fill.bytes (.data first rest :: fills) = (first :: rest) ++ Fill.bytes fills := rfl
      rcases cutAt_cases newline (first :: rest) with ⟨hnone, hcut⟩ | ⟨a, b, hchunk, ha, hcut⟩
      · -- the line goes on after the chunk
        have hloop : readLineLoop (cappedLine line).1 (cappedLine line).2 (decide (line ≠ [])) (.data first rest :: fills) =
            readLineLoop (cappedLine (line ++ first :: rest)).1 (cappedLine (line ++ first :: rest)).2
              (decide (line ++ first :: rest ≠ [])) fills := by
          rw [readLineLoop, hcut]
          dsimp only
          rw [extendCapped_eq]
          congr 1
          simp
        obtain ⟨hended, hfailed, hatEnd⟩ := ih (line ++ first :: rest)
        rw [hloop]
        refine ⟨fun a b hab => ?_, fun hnotMem => ?_, fun hnotMem hfails => ?_⟩
        · rw [hbytes, cutAt_append_of_notMem hnone] at hab
          obtain ⟨ha, hb⟩ := Prod.mk.inj hab
          obtain ⟨hresult, hout, hrest, hfails, hsize⟩ :=
            hended (cutAt newline (Fill.bytes fills)).1 b (Prod.ext rfl hb)
          rw [List.append_assoc, ha] at hresult hout
          refine ⟨hresult, hout, hrest, hfails, ?_⟩
          simp only [Fill.size]
          omega
        · exact hfailed fun h => hnotMem (hbytes ▸ List.mem_append_right _ h)
        · rw [hbytes, ← List.append_assoc]
          exact hatEnd (fun h => hnotMem (hbytes ▸ List.mem_append_right _ h)) hfails
      · -- the line ends in the chunk
        have hloop : readLineLoop (cappedLine line).1 (cappedLine line).2 (decide (line ≠ [])) (.data first rest :: fills) =
            ⟨.ok (some (cappedLine (line ++ a)).2), (cappedLine (line ++ a)).1, Fill.pushBack b fills⟩ := by
          rw [readLineLoop, hcut]
          dsimp only
          rw [extendCapped_eq]
        have hstream : Fill.bytes (.data first rest :: fills) = a ++ newline :: (b ++ Fill.bytes fills) := by
          rw [hbytes, hchunk, List.append_assoc]; rfl
        have hmem : newline ∈ Fill.bytes (.data first rest :: fills) := by
          rw [hstream]
          exact List.mem_append_right _ (List.mem_cons_self ..)
        rw [hloop]
        refine ⟨fun a' b' hab => ?_, fun h => absurd hmem h, fun h => absurd hmem h⟩
        rw [hstream, cutAt_append ha] at hab
        cases hab
        refine ⟨rfl, rfl, Fill.bytes_pushBack, Fill.fails_pushBack, ?_⟩
        have hsize := Fill.size_pushBack_le b fills
        have hlength := congrArg List.length hchunk
        rw [List.length_append, List.length_cons, List.length_cons] at hlength
        simp only [Fill.size]
        omega

/-! ## The pump -/

theorem readsLine_capped (reader : List Fill) : ReadsLine [] reader (readLineCapped reader) := readsLine [] reader

/-- A line that is read takes something of the stream. -/
theorem readLineCapped_size {reader : List Fill} {truncated : Bool}
    (h : (readLineCapped reader).result = .ok (some truncated)) :
    Fill.size (readLineCapped reader).rest < Fill.size reader := by
  obtain ⟨hended, hfailed, hatEnd⟩ := readsLine_capped reader
  rcases cutAt_cases newline (Fill.bytes reader) with ⟨hnone, -⟩ | ⟨a, b, -, -, hcut⟩
  · cases hfails : Fill.fails reader with
    | true =>
      rw [hfailed hnone hfails] at h
      cases h
    | false =>
      obtain ⟨-, hrest, hresult⟩ := hatEnd hnone hfails
      rw [hresult] at h
      rw [hrest]
      refine Fill.size_pos fun hnil => ?_
      rw [hnil] at h
      cases h
  · exact (hended a b hcut).2.2.2.2

/-- The lines that `pump_observed` reads before an error or the end of the stream, each with whether it is cut. -/
def pumpLines (reader : List Fill) : List (List UInt8 × Bool) :=
  match _h : (readLineCapped reader).result with
  | .ok (some truncated) => ((readLineCapped reader).out, truncated) :: pumpLines (readLineCapped reader).rest
  | _ => []
termination_by Fill.size reader
decreasing_by exact readLineCapped_size _h

theorem pumpLines_of_some {reader : List Fill} {truncated : Bool}
    (h : (readLineCapped reader).result = .ok (some truncated)) :
    pumpLines reader = ((readLineCapped reader).out, truncated) :: pumpLines (readLineCapped reader).rest := by
  rw [pumpLines]
  split
  · next t ht => cases h.symm.trans ht; rfl
  · next hne => exact absurd h (hne truncated)

theorem pumpLines_of_ne {reader : List Fill} (h : ∀ truncated, (readLineCapped reader).result ≠ .ok (some truncated)) :
    pumpLines reader = [] := by
  rw [pumpLines]
  split
  · next t ht => exact absurd ht (h t)
  · rfl

/-! ## The lines of the stream -/

/-- What stands between newlines, and what follows the last one if that is not empty and the stream comes to its end. -/
def splitLines (bytes : List UInt8) (fails : Bool) : List (List UInt8) :=
  let pieces := bytes.splitOn newline
  pieces.dropLast ++ (pieces.getLast?.filter fun last => !fails && last ≠ []).toList

theorem splitLines_append {a : List UInt8} (h : newline ∉ a) (b : List UInt8) (fails : Bool) :
    splitLines (a ++ newline :: b) fails = a :: splitLines b fails := by
  have hne : b.splitOn newline ≠ [] := List.splitOn_ne_nil newline b
  obtain ⟨last, hlast⟩ : ∃ last, (b.splitOn newline).getLast? = some last :=
    ⟨_, List.getLast?_eq_some_getLast hne⟩
  rw [splitLines, splitLines, List.splitOn_append_cons_self_of_not_mem h, List.dropLast_cons_of_ne_nil hne,
    List.getLast?_cons, hlast]
  rfl

theorem splitLines_of_notMem (h : newline ∉ bytes) (fails : Bool) :
    splitLines bytes fails = if fails = false ∧ bytes ≠ [] then [bytes] else [] := by
  rw [splitLines, List.splitOn_eq_singleton h]
  cases fails
  · cases bytes <;> rfl
  · rfl

/-- Whatever the reads of a stream are, the pump reads the lines of its bytes, each cut to its head and marked if it
was longer. -/
theorem pumpLines_eq (reader : List Fill) :
    pumpLines reader = (splitLines (Fill.bytes reader) (Fill.fails reader)).map cappedLine := by
  induction hn : Fill.size reader using Nat.strongRecOn generalizing reader with
  | _ n ih =>
    obtain ⟨hended, hfailed, hatEnd⟩ := readsLine_capped reader
    rcases cutAt_cases newline (Fill.bytes reader) with ⟨hnone, -⟩ | ⟨a, b, hab, ha, hcut⟩
    · rw [splitLines_of_notMem hnone]
      cases hfails : Fill.fails reader with
      | true =>
        refine pumpLines_of_ne fun truncated h => ?_
        rw [hfailed hnone hfails] at h
        cases h
      | false =>
        obtain ⟨hout, hrest, hresult⟩ := hatEnd hnone hfails
        rw [List.nil_append] at hout hresult
        by_cases hnil : Fill.bytes reader = []
        · rw [if_neg fun h => h.2 hnil]
          refine pumpLines_of_ne fun truncated h => ?_
          rw [hresult, if_pos hnil] at h
          cases h
        · have hend : pumpLines [] = [] := pumpLines_of_ne nofun
          rw [if_neg hnil] at hresult
          rw [if_pos ⟨rfl, hnil⟩, pumpLines_of_some hresult, hout, hrest, hend]
          rfl
    · obtain ⟨hresult, hout, hbytes, hfails, hsize⟩ := hended a b hcut
      have hlines := ih _ (hn ▸ hsize) (readLineCapped reader).rest rfl
      rw [pumpLines_of_some hresult, hlines, hbytes, hfails, hout, hab, splitLines_append ha]
      rfl

end Zedspaces.Supervisor
