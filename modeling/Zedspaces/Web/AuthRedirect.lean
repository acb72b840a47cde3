/-
What a slot reads out of the redirect that the control plane builds: the token and the next path, whatever texts they
are. On other values the slot's percent decoding departs from the standard's in one respect, the signs of escapes
(`percent_decoding`).
-/
import Zedspaces.Supervisor.PercentDecode
import Zedspaces.Web.PortToken

namespace Zedspaces.Web

open Lib Supervisor

variable {e : Env} {host : String} {token next value : Text} {c : Char}

/-! ## `encodeURIComponent` -/

theorem isUnreserved_plain (h : isUnreserved c = true) : Text.isAscii c = true ∧ c ≠ '%' ∧ c ≠ '&' ∧ c ≠ '=' := by
  refine ⟨?_, ?_, ?_, ?_⟩
  · rw [isUnreserved, Bool.or_eq_true, decide_eq_true_eq] at h
    rcases h with h | h
    · simp only [isAsciiAlphanumeric, Bool.or_eq_true, Bool.and_eq_true, decide_eq_true_eq] at h
      exact decide_eq_true (by omega)
    · have hmarks : ∀ c ∈ ['-', '_', '.', '!', '~', '*', '\'', '(', ')'], Text.isAscii c = true := by decide
      exact hmarks c h
  · rintro rfl; revert h; decide
  · rintro rfl; revert h; decide
  · rintro rfl; revert h; decide

theorem escaped_unreserved (h : isUnreserved c = true) : Escaped (String.utf8EncodeChar c) (Text.utf8 [c]) := by
  obtain ⟨hascii, hpercent, -⟩ := isUnreserved_plain h
  rw [Text.utf8_cons_ascii hascii, Text.utf8EncodeChar_ascii hascii]
  refine .keep ?_ .nil
  intro hbyte
  have hcode := Text.toNat_byte hascii
  rw [hbyte] at hcode
  exact hpercent (Char.toNat_inj.1 hcode.symm)

theorem escaped_escapeBytes (bytes : List UInt8) : Escaped bytes (Text.utf8 (bytes.flatMap escapeByte)) := by
  induction bytes with
  | nil => exact .nil
  | cons b bytes ih =>
    rw [List.flatMap_cons, Text.utf8_append]
    exact (escaped_escapeByte b).append ih

theorem escaped_encodeURIComponent (value : Text) : Escaped value.utf8 (encodeURIComponent value).utf8 := by
  induction value with
  | nil => exact .nil
  | cons c value ih =>
    have hbytes : Text.utf8 (c :: value) = String.utf8EncodeChar c ++ Text.utf8 value := List.flatMap_cons
    rw [hbytes, encodeURIComponent, List.flatMap_cons, Text.utf8_append]
    refine Escaped.append ?_ ih
    split
    · next hc => exact escaped_unreserved hc
    · exact escaped_escapeBytes _

/-- What is written is unreserved, or the `%` of an escape. -/
theorem encodeURIComponent_mem (h : c ∈ encodeURIComponent value) : isUnreserved c = true ∨ c = '%' := by
  obtain ⟨d, -, hd⟩ := List.mem_flatMap.1 h
  split at hd
  · next hunreserved =>
    cases List.mem_singleton.1 hd
    exact .inl hunreserved
  · obtain ⟨byte, -, hbyte⟩ := List.mem_flatMap.1 hd
    have hlt : byte.toNat < 256 := byte.toNat_lt
    have hdigit : ∀ n, n < 16 → isUnreserved (Text.upperHexDigit n) = true := by decide
    simp only [List.mem_cons, List.not_mem_nil, or_false] at hbyte
    rcases hbyte with rfl | rfl | rfl
    · exact .inr rfl
    · exact .inl (hdigit _ (by omega))
    · exact .inl (hdigit _ (by omega))

theorem notMem_encodeURIComponent : '&' ∉ encodeURIComponent value := by
  intro h
  rcases encodeURIComponent_mem h with hunreserved | he
  · exact (isUnreserved_plain hunreserved).2.2.1 rfl
  · exact absurd he (by decide)

theorem percentDecode_encodeURIComponent (value : Text) : percentDecode (encodeURIComponent value) = value :=
  percentDecode_of_escaped (escaped_encodeURIComponent value)

/-! ## The query of the redirect -/

theorem notMem_pair {name : Text} (h : '&' ∉ name) : '&' ∉ name ++ '=' :: encodeURIComponent value := by
  intro hmem
  rw [List.mem_append, List.mem_cons] at hmem
  rcases hmem with hmem | hmem | hmem
  · exact h hmem
  · exact absurd hmem (by decide)
  · exact notMem_encodeURIComponent hmem

theorem query_eq : (authRedirect e host token next).query = bootstrapParam ++ '=' :: encodeURIComponent token ++
    '&' :: ("next".toList ++ '=' :: encodeURIComponent next) := by
  have hname : "next=".toList = "next".toList ++ ['='] := by decide
  show bootstrapParam ++ '=' :: encodeURIComponent token ++ '&' :: ("next=".toList ++ encodeURIComponent next) = _
  rw [hname, List.append_assoc "next".toList]
  rfl

theorem queryParam_token (h : token ≠ []) :
    queryParam (authRedirect e host token next).query bootstrapParam = some token := by
  rw [query_eq]
  exact queryParam_head (List.splitOn_append_cons_self_of_not_mem (notMem_pair bootstrapParam_plain.1) _)
    bootstrapParam_plain.2 (percentDecode_encodeURIComponent token) h

theorem queryParam_next (h : next ≠ []) :
    queryParam (authRedirect e host token next).query "next".toList = some next := by
  have hname : '&' ∉ "next".toList ∧ '=' ∉ "next".toList := by decide
  rw [query_eq, queryParam_skip (notMem_pair bootstrapParam_plain.1) bootstrapParam_plain.2 (by decide)]
  exact queryParam_head (List.splitOn_eq_singleton (notMem_pair hname.1)) hname.2
    (percentDecode_encodeURIComponent next) h

/-- A value is decoded as the standard says exactly if it has no escape with a sign; and the slot reads the token and
the next path back out of every redirect. -/
theorem percent_decoding (value : Text) (e : Env) (host : String) (token next : Text) :
    (percentDecode value = Text.utf8Lossy none (replaceEscapes value.utf8) ↔ ¬ HasPlusEscape value.utf8) ∧
    (token ≠ [] → next ≠ [] →
      queryParam (authRedirect e host token next).query bootstrapParam = some token ∧
        queryParam (authRedirect e host token next).query "next".toList = some next) :=
  ⟨percentDecode_eq value, fun htoken hnext => ⟨queryParam_token htoken, queryParam_next hnext⟩⟩

theorem percent_decoding_sample : queryParam (authRedirect sampleEnv "s.example" "+%é".toList
    "/a?b=%+5&😀".toList).query "next".toList = some "/a?b=%+5&😀".toList :=
  ((percent_decoding [] sampleEnv "s.example" "+%é".toList "/a?b=%+5&😀".toList).2 (by decide)
    (by decide)).2

/-- `%+5` stands for no byte, but is decoded to one. -/
theorem signed_escape_decoded : ¬ ∀ value : Text, percentDecode value = Text.utf8Lossy none (replaceEscapes value.utf8) := by
  intro h
  have hvalue := h "%+5".toList
  revert hvalue
  decide

end Zedspaces.Web
