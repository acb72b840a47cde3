/-
The merge of the user's settings over the devcontainer's (`deep_merge`). At every path the merged document has what the
user's document has there, and what the overlay has where the user's objects do not reach and the overlay's go along;
merging either of the two in again changes nothing (`settings_merge`). An object is a map by its keys, so two documents
are equal as soon as their objects look up the same.
-/
import Mathlib.Data.Char
import Mathlib.Data.List.Lex
import Zedspaces.Lib.Json
import Zedspaces.Lib.SortedMap

namespace Zedspaces.Supervisor

open Lib Lib.Json SortedMap

/-! ## Documents -/

/-- `serde_json::Map` -/
abbrev Fields := List (Text × Value)

/-- Every object of the document is a map: its keys stand in order, each once. -/
inductive Document : Value → Prop
  | null : Document .null
  | bool (b : Bool) : Document (.bool b)
  | number (digits : Text) : Document (.number digits)
  | string (t : Text) : Document (.string t)
  | array {items : List Value} (h : ∀ item ∈ items, Document item) : Document (.array items)
  | object {fields : Fields} (hsorted : Sorted fields) (h : ∀ field ∈ fields, Document field.2) : Document (.object fields)

mutual

/-- `deep_merge(base, over)` -/
def deepMerge : Value → Value → Value
  | .object base, .object upper => .object (mergeFields base upper)
  | _, upper => upper

/-- `for (key, value) in over` -/
def mergeFields (base : Fields) : Fields → Fields
  | [] => base
  | entry :: upper => mergeFields (mergeEntry base entry) upper

/-- `base.insert(key, merged)`, with what stood under the key -/
def mergeEntry (base : Fields) : Text × Value → Fields
  | (key, value) => match lookup key base with
    | some existing => insert key (deepMerge existing value) (remove key base)
    | none => insert key value base

end

/-- What stands at a path of keys. -/
def look : Value → List Text → Option Value
  | v, [] => some v
  | .object fields, key :: path => (lookup key fields).bind (look · path)
  | _, _ :: _ => none

/-! ## Fields -/

variable {base upper fields : Fields} {b u v : Value} {key : Text} {path : List Text}

/-- A value of the overlay's place with the user's value over it. -/
def mergeOver (existing : Option Value) (value : Value) : Value :=
  match existing with
  | some existing => deepMerge existing value
  | none => value

theorem mergeEntry_eq (base : Fields) (key : Text) (value : Value) :
    lookup key (mergeEntry base (key, value)) = some (mergeOver (lookup key base) value) ∧
      (∀ key', key' ≠ key → lookup key' (mergeEntry base (key, value)) = lookup key' base) ∧
      (Sorted base → Sorted (mergeEntry base (key, value))) := by
  cases hfound : lookup key base with
  | some existing =>
    have heq : mergeEntry base (key, value) = insert key (deepMerge existing value) (remove key base) := by
      simp only [mergeEntry, hfound]
    rw [heq]
    refine ⟨lookup_insert_self .., fun key' hne => ?_, fun h => (h.remove key).insert key _⟩
    rw [lookup_insert_of_ne hne, lookup_remove_of_ne hne]
  | none =>
    have heq : mergeEntry base (key, value) = insert key value base := by
      simp only [mergeEntry, hfound]
    rw [heq]
    exact ⟨lookup_insert_self .., fun key' hne => lookup_insert_of_ne hne value base, fun h => h.insert key value⟩

theorem sorted_mergeFields (upper : Fields) (h : Sorted base) : Sorted (mergeFields base upper) := by
  induction upper generalizing base with
  | nil => exact h
  | cons entry upper ih => exact ih ((mergeEntry_eq base entry.1 entry.2).2.2 h)

theorem lookup_mergeFields_of_none (h : lookup key upper = none) : lookup key (mergeFields base upper) = lookup key base := by
  induction upper generalizing base with
  | nil => rfl
  | cons entry upper ih =>
    obtain ⟨key', value⟩ := entry
    have hne : key ≠ key' := by
      rintro rfl
      rw [lookup_cons_self] at h
      cases h
    rw [lookup_cons_of_ne hne] at h
    exact (ih h).trans ((mergeEntry_eq base key' value).2.1 key hne)

/-- Under a key of the user's stands his value over what stood there. -/
theorem lookup_mergeFields (hover : Sorted upper) (h : lookup key upper = some v) :
    lookup key (mergeFields base upper) = some (mergeOver (lookup key base) v) := by
  induction upper generalizing base with
  | nil => cases h
  | cons entry upper ih =>
    obtain ⟨key', value⟩ := entry
    obtain ⟨hlt, hover⟩ := sorted_cons.1 hover
    by_cases hkey : key = key'
    · subst hkey
      rw [lookup_cons_self] at h
      cases h
      exact (lookup_mergeFields_of_none (lookup_eq_none_of_lt hlt)).trans (mergeEntry_eq base key v).1
    · rw [lookup_cons_of_ne hkey] at h
      have hrest : lookup key (mergeFields (mergeEntry base (key', value)) upper) =
          some (mergeOver (lookup key (mergeEntry base (key', value))) v) := ih hover h
      rwa [(mergeEntry_eq base key' value).2.1 key hkey] at hrest

/-! ## Documents that look up the same -/

theorem Document.sorted (h : Document (.object fields)) : Sorted fields := by
  cases h
  assumption

theorem Document.of_lookup (h : Document (.object fields)) (hfound : lookup key fields = some v) : Document v := by
  cases h with
  | object hsorted hall => exact hall (key, v) (mem_of_lookup hfound)

theorem deepMerge_of_not_object (h : ∀ upper, u ≠ .object upper) (b : Value) : deepMerge b u = u := by
  unfold deepMerge
  split
  · next upper _ => exact absurd rfl (h _)
  · rfl

theorem deepMerge_of_base (h : ∀ base, b ≠ .object base) (u : Value) : deepMerge b u = u := by
  unfold deepMerge
  split
  · exact absurd rfl (h _)
  · rfl

/-- An object or not. -/
theorem object_or (v : Value) : (∃ fields, v = .object fields) ∨ ∀ fields, v ≠ .object fields := by
  cases v with
  | object fields => exact .inl ⟨fields, rfl⟩
  | null | bool | number | string | array => exact .inr fun _ h => nomatch h

theorem merge_self (h : Document v) : deepMerge v v = v := by
  induction h with
  | @object fields hsorted _ ih =>
    have hlookup : ∀ key, lookup key (mergeFields fields fields) = lookup key fields := by
      intro key
      cases hfound : lookup key fields with
      | none => rw [lookup_mergeFields_of_none hfound, hfound]
      | some v =>
        rw [lookup_mergeFields hsorted hfound, hfound]
        exact congrArg some (ih (key, v) (mem_of_lookup hfound))
    exact congrArg Value.object (eq_of_lookup (sorted_mergeFields fields hsorted) hsorted hlookup)
  | null | bool | number | string | array => exact deepMerge_of_not_object (by simp) _

/-- Merging the user's document in once more. -/
theorem merge_merge_user (hb : Document b) (hu : Document u) : deepMerge (deepMerge b u) u = deepMerge b u := by
  induction hu generalizing b with
  | @object upper hover hall ih =>
    rcases object_or b with ⟨base, rfl⟩ | hb'
    · have hlookup : ∀ key, lookup key (mergeFields (mergeFields base upper) upper) = lookup key (mergeFields base upper) := by
        intro key
        cases hfound : lookup key upper with
        | none => rw [lookup_mergeFields_of_none hfound]
        | some v =>
          have hv := mem_of_lookup hfound
          rw [lookup_mergeFields hover hfound, lookup_mergeFields hover hfound]
          cases hbase : lookup key base with
          | none => exact congrArg some (merge_self (hall (key, v) hv))
          | some existing => exact congrArg some (ih (key, v) hv (hb.of_lookup hbase))
      have hmerged := sorted_mergeFields upper hb.sorted
      exact congrArg Value.object (eq_of_lookup (sorted_mergeFields upper hmerged) hmerged hlookup)
    · rw [deepMerge_of_base hb']
      exact merge_self (.object hover hall)
  | null | bool | number | string | array => exact (deepMerge_of_not_object (by simp) _).trans (deepMerge_of_not_object (by simp) _).symm

/-- Merging over the overlay once more. -/
theorem merge_base_merge (hb : Document b) (hu : Document u) : deepMerge b (deepMerge b u) = deepMerge b u := by
  induction hu generalizing b with
  | @object upper hover hall ih =>
    rcases object_or b with ⟨base, rfl⟩ | hb'
    · have hmerged : Sorted (mergeFields base upper) := sorted_mergeFields upper hb.sorted
      have hlookup : ∀ key, lookup key (mergeFields base (mergeFields base upper)) = lookup key (mergeFields base upper) := by
        intro key
        cases hfound : lookup key (mergeFields base upper) with
        | none =>
          rw [lookup_mergeFields_of_none hfound]
          cases hover' : lookup key upper with
          | none => rwa [lookup_mergeFields_of_none hover'] at hfound
          | some v =>
            rw [lookup_mergeFields hover hover'] at hfound
            cases hfound
        | some merged =>
          rw [lookup_mergeFields hmerged hfound]
          refine congrArg some ?_
          cases hover' : lookup key upper with
          | none =>
            -- a key of the overlay's alone
            rw [lookup_mergeFields_of_none hover'] at hfound
            rw [hfound]
            exact merge_self (hb.of_lookup hfound)
          | some v =>
            rw [lookup_mergeFields hover hover'] at hfound
            cases hfound
            cases hbase : lookup key base with
            | none => rfl
            | some existing => exact ih (key, v) (mem_of_lookup hover') (hb.of_lookup hbase)
      exact congrArg Value.object (eq_of_lookup (sorted_mergeFields _ hb.sorted) hmerged hlookup)
    · rw [deepMerge_of_base hb', deepMerge_of_base hb']
  | null | bool | number | string | array =>
    have hself : ∀ u, (∀ upper, u ≠ .object upper) → deepMerge b (deepMerge b u) = deepMerge b u := by
      intro u hu
      rw [deepMerge_of_not_object hu, deepMerge_of_not_object hu]
    exact hself _ (by simp)

/-! ## Paths -/

/-- The user's objects end on the way along the path, and the overlay's go on. -/
def Beyond (b u : Value) (path : List Text) : Prop :=
  ∃ before key after base upper, path = before ++ key :: after ∧ look b before = some (.object base) ∧
    look u before = some (.object upper) ∧ lookup key upper = none

theorem look_cons (fields : Fields) (key : Text) (path : List Text) :
    look (.object fields) (key :: path) = (lookup key fields).bind (look · path) := rfl

theorem look_cons_of_not_object (h : ∀ fields, v ≠ .object fields) (key : Text) (path : List Text) :
    look v (key :: path) = none := by
  cases v with
  | object fields => exact absurd rfl (h fields)
  | null | bool | number | string | array => rfl

theorem Beyond.cons {base upper : Fields} {existing value : Value} (h : Beyond existing value path)
    (hbase : lookup key base = some existing) (hover : lookup key upper = some value) :
    Beyond (.object base) (.object upper) (key :: path) := by
  obtain ⟨before, key', after, base', over', rfl, hb, hu, hnone⟩ := h
  refine ⟨key :: before, key', after, base', over', rfl, ?_, ?_, hnone⟩
  · rw [look_cons, hbase]
    exact hb
  · rw [look_cons, hover]
    exact hu

/-- A step of a path into two objects, under a key of the user's. -/
theorem look_merge_of_some {base upper : Fields} {value : Value} (hover : Sorted upper) (h : lookup key upper = some value)
    (path : List Text) :
    look (deepMerge (.object base) (.object upper)) (key :: path) = look (mergeOver (lookup key base) value) path := by
  show (lookup key (mergeFields base upper)).bind (look · path) = _
  rw [lookup_mergeFields hover h]
  rfl

/-- Under any other key. -/
theorem look_merge_of_none {base upper : Fields} (h : lookup key upper = none) (path : List Text) :
    look (deepMerge (.object base) (.object upper)) (key :: path) = look (.object base) (key :: path) := by
  show (lookup key (mergeFields base upper)).bind (look · path) = _
  rw [lookup_mergeFields_of_none h]
  rfl

/-- What the user's document has at a path stands there in the merged one: a value that is no object as it is, an object
as an object. -/
theorem look_merge_of_look (hb : Document b) (hu : Document u) (h : look u path = some v) :
    ((∀ fields, v ≠ .object fields) → look (deepMerge b u) path = some v) ∧
      ∀ fields, v = .object fields → ∃ merged, look (deepMerge b u) path = some (.object merged) := by
  induction path generalizing b u with
  | nil =>
    cases h
    refine ⟨fun hne => congrArg some (deepMerge_of_not_object hne b), ?_⟩
    rintro upper rfl
    rcases object_or b with ⟨base, rfl⟩ | hb'
    · exact ⟨mergeFields base upper, rfl⟩
    · exact ⟨upper, congrArg some (deepMerge_of_base hb' _)⟩
  | cons key path ih =>
    rcases object_or b with ⟨base, rfl⟩ | hb'
    · rcases object_or u with ⟨upper, rfl⟩ | hu'
      · obtain ⟨value, hover, hv⟩ := Option.bind_eq_some_iff.1 h
        rw [look_merge_of_some hu.sorted hover path]
        cases hbase : lookup key base with
        | none =>
          refine ⟨fun _ => hv, ?_⟩
          rintro fields rfl
          exact ⟨fields, hv⟩
        | some existing => exact ih (hb.of_lookup hbase) (hu.of_lookup hover) hv
      · rw [look_cons_of_not_object hu'] at h
        cases h
    · rw [deepMerge_of_base hb']
      refine ⟨fun _ => h, ?_⟩
      rintro fields rfl
      exact ⟨fields, h⟩

/-- Beyond the user's objects the overlay shows. -/
theorem look_merge_of_beyond (hu : Document u) (h : Beyond b u path) : look (deepMerge b u) path = look b path := by
  obtain ⟨before, key, after, base, upper, rfl, hb', hu', hnone⟩ := h
  induction before generalizing b u with
  | nil =>
    cases hb'
    cases hu'
    exact look_merge_of_none hnone after
  | cons first before ih =>
    rcases object_or b with ⟨base', rfl⟩ | hb''
    · rcases object_or u with ⟨over', rfl⟩ | hu''
      · obtain ⟨existing, hbase, hexisting⟩ := Option.bind_eq_some_iff.1 hb'
        obtain ⟨value, hover, hvalue⟩ := Option.bind_eq_some_iff.1 hu'
        rw [List.cons_append, look_merge_of_some hu.sorted hover, look_cons, hbase]
        exact ih (hu.of_lookup hover) hexisting hvalue
      · rw [look_cons_of_not_object hu''] at hu'
        cases hu'
    · rw [look_cons_of_not_object hb''] at hb'
      cases hb'

/-- Nothing else is there. -/
theorem look_or_beyond (hu : Document u) (h : look (deepMerge b u) path = some v) :
    (∃ w, look u path = some w) ∨ Beyond b u path := by
  induction path generalizing b u with
  | nil => exact .inl ⟨u, rfl⟩
  | cons key path ih =>
    rcases object_or u with ⟨upper, rfl⟩ | hu'
    · rcases object_or b with ⟨base, rfl⟩ | hb'
      · cases hover : lookup key upper with
        | none => exact .inr ⟨[], key, path, base, upper, rfl, rfl, rfl, hover⟩
        | some value =>
          rw [look_merge_of_some hu.sorted hover path] at h
          have hlook : look (.object upper) (key :: path) = look value path := by
            rw [look_cons, hover]
            rfl
          cases hbase : lookup key base with
          | none =>
            rw [hbase] at h
            exact .inl ⟨v, hlook.trans h⟩
          | some existing =>
            rw [hbase] at h
            rcases ih (hu.of_lookup hover) h with ⟨w, hw⟩ | hbeyond
            · exact .inl ⟨w, hlook.trans hw⟩
            · exact .inr (hbeyond.cons hbase hover)
      · rw [deepMerge_of_base hb'] at h
        exact .inl ⟨v, h⟩
    · rw [deepMerge_of_not_object hu', look_cons_of_not_object hu'] at h
      cases h

/-- The merged document has the user's value wherever that is no object, an object wherever the user has one, the
overlay's value beyond the user's objects, and nothing else; and either document may be merged in again. -/
theorem settings_merge (b u : Value) (hb : Document b) (hu : Document u) :
    (∀ path v, look u path = some v → (∀ fields, v ≠ .object fields) → look (deepMerge b u) path = some v) ∧
    (∀ path fields, look u path = some (.object fields) → ∃ merged, look (deepMerge b u) path = some (.object merged)) ∧
    (∀ path, Beyond b u path → look (deepMerge b u) path = look b path) ∧
    (∀ path v, look (deepMerge b u) path = some v → (∃ w, look u path = some w) ∨ Beyond b u path) ∧
    deepMerge (deepMerge b u) u = deepMerge b u ∧ deepMerge b (deepMerge b u) = deepMerge b u :=
  ⟨fun _ _ h hne => (look_merge_of_look hb hu h).1 hne, fun _ fields h => (look_merge_of_look hb hu h).2 fields rfl,
    fun _ h => look_merge_of_beyond hu h, fun _ _ h => look_or_beyond hu h, merge_merge_user hb hu, merge_base_merge hb hu⟩

/-- The devcontainer turns tabs off and sets two tools, the user sets the one his own way. -/
def sampleOverlay : Value :=
  .object [("lsp".toList, .object [("a".toList, .number ['1']), ("b".toList, .number ['2'])]), ("tabs".toList, .bool false)]

def sampleUser : Value := .object [("lsp".toList, .object [("b".toList, .array [.null])])]

theorem sampleOverlay_document : Document sampleOverlay := by
  refine .object (by decide) (List.forall_mem_cons.2 ⟨.object (by decide) ?_, List.forall_mem_singleton.2 (.bool _)⟩)
  exact List.forall_mem_cons.2 ⟨.number _, List.forall_mem_singleton.2 (.number _)⟩

theorem sampleUser_document : Document sampleUser := by
  refine .object (by decide) (List.forall_mem_singleton.2 (.object (by decide) (List.forall_mem_singleton.2 (.array ?_))))
  exact List.forall_mem_singleton.2 .null

theorem settings_merge_sample :
    look (deepMerge sampleOverlay sampleUser) ["lsp".toList, "b".toList] = some (.array [.null]) ∧
      look (deepMerge sampleOverlay sampleUser) ["lsp".toList, "a".toList] = some (.number ['1']) := by
  obtain ⟨huser, -, hbeyond, -⟩ := settings_merge sampleOverlay sampleUser sampleOverlay_document sampleUser_document
  exact ⟨huser ["lsp".toList, "b".toList] _ rfl (by simp),
    hbeyond ["lsp".toList, "a".toList] ⟨["lsp".toList], "a".toList, [], _, _, rfl, rfl, rfl, rfl⟩⟩

/-! ## The settings file -/

/-- `serde_json_lenient::from_str` and `serde_json::to_string_pretty` -/
structure SettingsText where
  lenient : Text → Option Value
  pretty : Value → Option Text

/-- `merge_settings_overlay(user_text, overlay)` -/
def mergeSettingsOverlay (lib : SettingsText) (userText : Text) (overlay : Value) : Text :=
  match if Text.trim userText = [] then some (.object []) else lib.lenient userText with
  | some user => (lib.pretty (deepMerge overlay user)).getD userText
  | none => userText

/-- The documents that are read are maps, and what is printed is read again. -/
structure SettingsText.Reads (lib : SettingsText) : Prop where
  document : ∀ t v, lib.lenient t = some v → Document v
  pretty : ∀ v t, lib.pretty v = some t → lib.lenient t = some v ∧ Text.trim t ≠ []

/-- A boot that finds the written file in the place of the user's text writes it again as it is. -/
theorem mergeSettingsOverlay_again {lib : SettingsText} (hlib : lib.Reads) {overlay : Value} (hoverlay : Document overlay)
    (userText : Text) : mergeSettingsOverlay lib (mergeSettingsOverlay lib userText overlay) overlay =
      mergeSettingsOverlay lib userText overlay := by
  cases hread : (if Text.trim userText = [] then some (.object []) else lib.lenient userText : Option Value) with
  | none =>
    have hsame : mergeSettingsOverlay lib userText overlay = userText := by
      unfold mergeSettingsOverlay
      rw [hread]
    rw [hsame, hsame]
  | some user =>
    have huser : Document user := by
      split at hread
      · cases hread
        exact .object List.Pairwise.nil (by rintro _ ⟨⟩)
      · exact hlib.document userText user hread
    have hmerge : mergeSettingsOverlay lib userText overlay = (lib.pretty (deepMerge overlay user)).getD userText := by
      unfold mergeSettingsOverlay
      rw [hread]
    rw [hmerge]
    cases hpretty : lib.pretty (deepMerge overlay user) with
    | none =>
      rw [hpretty] at hmerge
      exact hmerge
    | some t =>
      obtain ⟨ht, htrim⟩ := hlib.pretty _ t hpretty
      show mergeSettingsOverlay lib t overlay = t
      unfold mergeSettingsOverlay
      rw [if_neg htrim, ht]
      show (lib.pretty (deepMerge overlay (deepMerge overlay user))).getD t = t
      rw [merge_base_merge hoverlay huser, hpretty]
      rfl

end Zedspaces.Supervisor
