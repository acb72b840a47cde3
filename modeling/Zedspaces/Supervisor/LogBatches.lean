/-
What a flush posts. The batch is cut by the sizes that were taken when its entries were queued, each the length of
the entry's own JSON and one byte for the separator, over 512 bytes for everything around the entries. Encoding the
batch adds nothing to that but the separators, of which there is one less than entries; so a batch of more than one
entry is within both limits once it is encoded (`batch_within_limits`).
-/
import Zedspaces.Supervisor.LogAccounting

namespace Zedspaces.Supervisor

open Lib

/-- `LogEntry` as JSON. -/
def LogEntry.json (entry : LogEntry) : Text :=
  let fields := match entry.fields with
    | some fields => [("fields".toList, (Json.Value.object fields).render)]
    | none => []
  Json.object ([("ts".toList, Json.number entry.ts), ("level".toList, Json.string entry.level.toList),
    ("source".toList, Json.string entry.source.toList), ("msg".toList, Json.string entry.msg)] ++ fields)

/-- The `POST …/logs` body: the batch's identity and its entries. -/
structure LogBatch where
  workspaceId : Text
  sandboxName : Text
  sessionId : Text
  build : Text
  entries : List LogEntry

def LogBatch.json (batch : LogBatch) : Text :=
  Json.object [("workspaceId".toList, Json.string batch.workspaceId),
    ("sandboxName".toList, Json.string batch.sandboxName), ("sessionId".toList, Json.string batch.sessionId),
    ("build".toList, Json.string batch.build),
    ("entries".toList, '[' :: [','].intercalate (batch.entries.map LogEntry.json) ++ [']'])]

/-- `serde_json` encoding of a batch. -/
def encodeBatch (batch : LogBatch) : List UInt8 := batch.json.utf8

/-! ## Lengths -/

theorem entrySize_eq (entry : LogEntry) : entrySize entry = entry.json.utf8.length + 1 := rfl

/-- The envelope of a batch does not depend on its entries. -/
theorem LogBatch.json_eq (batch : LogBatch) : ∃ before after : Text, ∀ entries,
    { batch with entries }.json = before ++ [','].intercalate (entries.map LogEntry.json) ++ after := by
  refine ⟨'{' :: [','].intercalate [Json.field "workspaceId".toList (Json.string batch.workspaceId),
    Json.field "sandboxName".toList (Json.string batch.sandboxName),
    Json.field "sessionId".toList (Json.string batch.sessionId),
    Json.field "build".toList (Json.string batch.build)] ++ ',' :: Json.string "entries".toList ++ [':', '['],
    [']', '}'], fun entries => ?_⟩
  simp only [json, Json.object, Json.field, List.intercalate, List.map_cons, List.map_nil, List.intersperse,
    List.flatten_cons, List.flatten_nil, List.append_assoc, List.cons_append, List.nil_append, List.append_nil]

/-- Encoding adds to the envelope the entries and a separator between any two of them. -/
theorem length_encodeBatch (batch : LogBatch) (h : batch.entries ≠ []) :
    (encodeBatch batch).length + 1 =
      (encodeBatch { batch with entries := [] }).length + (batch.entries.map entrySize).sum := by
  obtain ⟨before, after, henvelope⟩ := batch.json_eq
  have hfull : batch.json = _ := henvelope batch.entries
  have hempty : ({ batch with entries := [] } : LogBatch).json = _ := henvelope []
  have hitems : batch.entries.map LogEntry.json ≠ [] := fun hnil => h (List.map_eq_nil_iff.1 hnil)
  have hjoined := Text.length_utf8_intercalate (c := ',') rfl hitems
  rw [List.map_map] at hjoined
  have hsizes : (batch.entries.map entrySize).sum =
      (batch.entries.map ((fun t => (Text.utf8 t).length + 1) ∘ LogEntry.json)).sum := rfl
  rw [encodeBatch, encodeBatch, hfull, hempty, hsizes, ← hjoined]
  simp only [Text.utf8_append, List.length_append, List.map_nil]
  have hnil : (Text.utf8 ([','].intercalate [])).length = 0 := rfl
  rw [hnil]
  omega

/-! ## Limits -/

section

variable {maxBatch maxBytes taken bytes : Nat} {queue : List Queued}

theorem takeBatch_lines (h : taken ≤ maxBatch) :
    taken + (Batcher.takeBatch maxBatch maxBytes taken bytes queue).1.length ≤ maxBatch := by
  induction queue generalizing taken bytes with
  | nil => exact h
  | cons q rest ih =>
    rw [Batcher.takeBatch]
    split
    · next hroom =>
      have hrest : taken + 1 +
          (Batcher.takeBatch maxBatch maxBytes (taken + 1) (bytes + q.size) rest).1.length ≤ maxBatch := ih hroom.1
      rw [List.length_cons]
      omega
    · exact h

/-- Each entry after the first fits the bytes. -/
theorem takeBatch_bytes (h : 0 < taken) :
    (Batcher.takeBatch maxBatch maxBytes taken bytes queue).1 = [] ∨
      bytes + totalSize (Batcher.takeBatch maxBatch maxBytes taken bytes queue).1 ≤ maxBytes := by
  induction queue generalizing taken bytes with
  | nil => exact .inl rfl
  | cons q rest ih =>
    rw [Batcher.takeBatch]
    split
    · next hroom =>
      have hfits : bytes + q.size ≤ maxBytes := hroom.2.resolve_left (Nat.ne_of_gt h)
      right
      dsimp only
      rw [totalSize_cons, ← Nat.add_assoc]
      have htaken : 0 < taken + 1 := Nat.succ_pos _
      rcases ih htaken with hnil | hrest
      · rw [hnil]
        exact hfits
      · exact hrest
    · exact .inl rfl

end

namespace Batcher

variable {b : Batcher} {config : LogShipperConfig} {ts : Nat}

theorem batch_lines : (b.batch config ts).length ≤ b.maxLines config := by
  have h : 0 + (b.batch config ts).length ≤ b.maxLines config := takeBatch_lines (Nat.zero_le _)
  rwa [Nat.zero_add] at h

/-- A batch of more than one entry fits the bytes. -/
theorem batch_bytes (h : 1 < (b.batch config ts).length) :
    batchEnvelopeBytes + totalSize (b.batch config ts) ≤ maxBytes config := by
  unfold batch cut at h ⊢
  cases hqueue : (b.noteDrops ts).queue with
  | nil =>
    rw [hqueue] at h
    cases h
  | cons q rest =>
    rw [hqueue] at h
    rw [takeBatch] at h ⊢
    split at h
    · next hroom =>
      rw [if_pos hroom]
      dsimp only at h ⊢
      rw [totalSize_cons, ← Nat.add_assoc]
      rcases takeBatch_bytes Nat.one_pos with hnil | hrest
      · rw [hnil] at h
        cases Nat.lt_irrefl _ h
      · exact hrest
    · cases h

end Batcher

/-- A posted batch of more than one entry is within the line limits, and, with an envelope of 512 bytes at most, its
encoding is within the byte limits. -/
theorem batch_within_limits (events : List LogEvent) (maxBatch : Nat) (config : LogShipperConfig) (ts : Nat)
    (identity : LogBatch) (henvelope : (encodeBatch { identity with entries := [] }).length ≤ batchEnvelopeBytes) :
    let b := { Batcher.start.run events with maxBatch }
    let entries := (b.batch config ts).map Queued.entry
    1 < entries.length → entries.length ≤ min maxBatch config.maxBatch ∧
      (encodeBatch { identity with entries }).length ≤ max 1024 (min config.maxBatchBytes maxBatchBytes) := by
  intro b entries hlong
  have haccounted := Batcher.accounted_start.run events
  have h : b.Accounted := ⟨haccounted.bytes, haccounted.sizes⟩
  have hlength : entries.length = (b.batch config ts).length := List.length_map ..
  rw [hlength] at hlong ⊢
  constructor
  · have hlines : (b.batch config ts).length ≤ max 1 (min maxBatch config.maxBatch) := Batcher.batch_lines
    omega
  · have hbytes := Batcher.batch_bytes hlong
    have hsizes : (entries.map entrySize).sum = totalSize (b.batch config ts) := by
      rw [List.map_map, totalSize]
      refine congrArg List.sum (List.map_congr_left fun q hq => ?_)
      exact (h.batch_sizes q hq).symm
    have hsome : entries ≠ [] := by
      intro hnil
      rw [hnil] at hlength
      rw [← hlength] at hlong
      cases hlong
    have hencoded := length_encodeBatch { identity with entries } hsome
    rw [hsizes] at hencoded
    have hmax : Batcher.maxBytes config = max 1024 (min config.maxBatchBytes maxBatchBytes) := rfl
    rw [← hmax]
    dsimp only at hencoded
    omega

/-- Two short lines go in one batch. -/
theorem batch_within_limits_two :
    let line : LogEntry := ⟨0, "info", "server", ['x'], none⟩
    let b := { Batcher.start.run [.enqueue line 0, .enqueue line 0] with maxBatch := 100 }
    let entries := (b.batch ⟨50, 4096⟩ 0).map Queued.entry
    entries.length = 2 ∧ (encodeBatch ⟨['w'], ['s'], ['i'], ['b'], entries⟩).length ≤ 4096 := by
  intro line b entries
  have hentries : entries.length = 2 := by decide
  have hlong : 1 < entries.length := by omega
  have hwithin := batch_within_limits [.enqueue line 0, .enqueue line 0] 100 ⟨50, 4096⟩ 0
    ⟨['w'], ['s'], ['i'], ['b'], []⟩ (by decide) hlong
  exact ⟨hentries, hwithin.2⟩

end Zedspaces.Supervisor
