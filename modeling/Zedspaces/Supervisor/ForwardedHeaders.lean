/-
The headers of a request that is passed on to the app. The proxy takes its own session cookie out of the `Cookie` line
it reads. It reads the first line only, and only as a string: a line that is none is passed on as it stands, and when
it is one, the further lines are gone. So the app gets the other cookies and not the session exactly if the first line
is a string and the further lines hold no other cookie, or if there is no session to take out (`forwarded_cookies`).
-/
import Zedspaces.Lib.Fields
import Zedspaces.Lib.HeaderMap
import Zedspaces.Supervisor.PortAccess

namespace Zedspaces.Supervisor

open Lib

abbrev Headers := HeaderMap (List UInt8)

/-- `ensure_connection_upgrade` -/
def ensureConnectionUpgrade (headers : Headers) : Headers :=
  if headers.contains "upgrade" then headers.insert "connection" (Text.utf8 "upgrade".toList) else headers

def hopByHop : List String :=
  ["connection", "keep-alive", "proxy-authenticate", "proxy-authorization", "proxy-connection", "te", "trailer",
    "transfer-encoding"]

def stripHopByHop (headers : Headers) : Headers := ensureConnectionUpgrade (hopByHop.foldl HeaderMap.remove headers)

/-- How a pair of the session begins. -/
def sessionPrefix : Text := cookieName ++ ['=']

/-- The `Cookie` value without the pair of the session, when anything is left of it. -/
def stripPortCookie (cookieHeader : Text) : Option Text :=
  let kept := ((cookieHeader.splitOn ';').map Text.trim).filter fun pair => pair ≠ [] ∧ ¬ sessionPrefix.isPrefixOf pair
  if kept ≠ [] then some ([';', ' '].intercalate kept) else none

/-- The rewriting of the `Cookie` header. -/
def withoutPortCookie (headers : Headers) : Headers :=
  match ((headers.get "cookie").bind headerToStr).map stripPortCookie with
  | some (some kept) => match headerFromStr kept with
    | some value => headers.insert "cookie" value.utf8
    | none => headers
  | some none => headers.remove "cookie"
  | none => headers

/-- Sets a header to a text, unless that is no header value. -/
def setText (headers : Headers) (name : String) (value : Text) : Headers :=
  match headerFromStr value with
  | some value => headers.insert name value.utf8
  | none => headers

/-- `::1` when the port listens there only; `addressFamily` says on which of the two it does. -/
def upstreamIp (addressFamily : Option (Bool × Bool)) : Text :=
  if addressFamily = some (false, true) then "[::1]".toList else "127.0.0.1".toList

def upstreamAddr (addressFamily : Option (Bool × Bool)) (target : Port) : Text :=
  upstreamIp addressFamily ++ ':' :: (toString target).toList

/-- The headers that `forward` sends to the app at `target`; `uriScheme` is the scheme of the request's own URI. -/
def forwardHeaders (cfg : ProxyConfig) (addressFamily : Option (Bool × Bool)) (uriScheme : Option Text) (target : Port)
    (headers : Headers) : Headers :=
  let originalHost := (headers.get "host").bind headerToStr
  let scheme := if cfg.secureCookies then "https".toList else uriScheme.getD "http".toList
  let headers := withoutPortCookie (stripHopByHop headers)
  let headers := setText headers "host" (upstreamAddr addressFamily target)
  let headers := match originalHost with
    | some host => setText headers "x-forwarded-host" host
    | none => headers
  let headers := headers.insert "x-forwarded-proto" ((headerFromStr scheme).getD "https".toList).utf8
  headers.insert "x-forwarded-port" ((headerFromStr (toString target).toList).getD ['0']).utf8

/-! ## Cookie pairs -/

/-- A line's bytes as characters. -/
def latin1 (value : List UInt8) : Text := value.map fun b => Char.ofNat b.toNat

def isBlank (c : Char) : Bool := c = ' ' || c = '\t'

/-- The pairs of one `Cookie` line. -/
def pairsOf (value : List UInt8) : List Text := Text.fields ';' isBlank (latin1 value)

/-- The cookie pairs of a request, line by line. -/
def cookiePairs (headers : Headers) : List Text := (headers.lines "cookie").flatMap pairsOf

/-- A pair of the session, as the proxy reads it. -/
def isSessionPair (pair : Text) : Bool := sessionPrefix.isPrefixOf pair

/-- The app gets no pair of the session and every other pair, in order. -/
structure HidesSession (before after : Headers) : Prop where
  hidden : ∀ pair ∈ cookiePairs after, isSessionPair pair = false
  others : (cookiePairs after).filter (!isSessionPair ·) = (cookiePairs before).filter (!isSessionPair ·)

/-- The first line is a string and the further ones hold pairs of the session only; or no line holds one. -/
def SessionOnFirstLine (headers : Headers) : Prop :=
  match headers.lines "cookie" with
  | [] => True
  | line :: rest =>
    if (headerToStr line).isSome then ∀ pair ∈ rest.flatMap pairsOf, isSessionPair pair = true
    else ∀ pair ∈ (line :: rest).flatMap pairsOf, isSessionPair pair = false

/-! ## The other headers -/

variable {cfg : ProxyConfig} {headers before after : Headers} {value : List UInt8} {t : Text} {c : Char}

theorem lines_stripHopByHop : (stripHopByHop headers).lines "cookie" = headers.lines "cookie" := by
  have hremove : ∀ (names : List String) (headers : Headers), "cookie" ∉ names →
      (names.foldl HeaderMap.remove headers).lines "cookie" = headers.lines "cookie" := by
    intro names
    induction names with
    | nil => exact fun _ _ => rfl
    | cons name names ih =>
      intro headers hnames
      rw [List.foldl_cons, ih _ (fun h => hnames (List.mem_cons_of_mem _ h)),
        HeaderMap.lines_remove_of_ne (by rintro rfl; exact hnames (List.mem_cons_self ..))]
  unfold stripHopByHop ensureConnectionUpgrade
  split
  · rw [HeaderMap.lines_insert_of_ne (by decide), hremove _ _ (by decide)]
  · exact hremove _ _ (by decide)

theorem lines_setText {name : String} (hne : "cookie" ≠ name) :
    (setText headers name t).lines "cookie" = headers.lines "cookie" := by
  unfold setText
  split
  · exact HeaderMap.lines_insert_of_ne hne
  · rfl

theorem lines_forwardHeaders {addressFamily : Option (Bool × Bool)} {uriScheme : Option Text} {target : Port} :
    (forwardHeaders cfg addressFamily uriScheme target headers).lines "cookie" =
      (withoutPortCookie (stripHopByHop headers)).lines "cookie" := by
  unfold forwardHeaders
  dsimp only
  rw [HeaderMap.lines_insert_of_ne (by decide), HeaderMap.lines_insert_of_ne (by decide)]
  split
  · rw [lines_setText (by decide), lines_setText (by decide)]
  · rw [lines_setText (by decide)]

/-! ## Header values -/

/-- A character of a header value. -/
def IsHeaderChar (c : Char) : Prop := 0x20 ≤ c.toNat ∧ c.toNat < 0x7F ∨ c.toNat = 9

theorem toNat_charOfByte : ∀ {n : Nat}, n < 0x7F → (Char.ofNat n).toNat = n := by decide

theorem IsHeaderChar.isAscii (h : IsHeaderChar c) : Text.isAscii c = true := by
  unfold IsHeaderChar at h
  exact decide_eq_true (by omega)

theorem IsHeaderChar.isWhitespace (h : IsHeaderChar c) : Text.isWhitespace c = isBlank c := by
  have hspace : c = ' ' ↔ c.toNat = 0x20 := Char.toNat_inj.symm
  have htab : c = '\t' ↔ c.toNat = 9 := Char.toNat_inj.symm
  unfold IsHeaderChar at h
  rw [Bool.eq_iff_iff]
  simp only [Text.isWhitespace, isBlank, hspace, htab, Bool.or_eq_true, Bool.and_eq_true, decide_eq_true_eq]
  omega

/-- A line that is a string is ASCII. -/
theorem headerToStr_eq_some (h : headerToStr value = some t) : t = latin1 value ∧ ∀ c ∈ t, IsHeaderChar c := by
  unfold headerToStr at h
  split at h
  · next hall =>
    cases h
    refine ⟨rfl, fun c hc => ?_⟩
    obtain ⟨b, hb, rfl⟩ := List.mem_map.1 hc
    have hbyte := List.all_eq_true.1 hall b hb
    simp only [Bool.or_eq_true, Bool.and_eq_true, decide_eq_true_eq, UInt8.le_iff_toNat_le, UInt8.lt_iff_toNat_lt,
      UInt8.reduceToNat, ← UInt8.toNat_inj] at hbyte
    have hcode : (Char.ofNat b.toNat).toNat = b.toNat := toNat_charOfByte (by omega)
    unfold IsHeaderChar
    omega
  · cases h

theorem latin1_utf8 (h : ∀ c ∈ t, IsHeaderChar c) : latin1 t.utf8 = t := by
  induction t with
  | nil => rfl
  | cons c t ih =>
    obtain ⟨hc, ht⟩ := List.forall_mem_cons.1 h
    rw [Text.utf8_cons_ascii hc.isAscii, latin1, List.map_cons, Text.toNat_byte hc.isAscii, Char.ofNat_toNat]
    exact congrArg (c :: ·) (ih ht)

theorem headerFromStr_eq_some (h : ∀ c ∈ t, IsHeaderChar c) : headerFromStr t = some t := by
  refine if_pos (List.all_eq_true.2 ?_)
  induction t with
  | nil => rintro _ ⟨⟩
  | cons c t ih =>
    obtain ⟨hc, ht⟩ := List.forall_mem_cons.1 h
    have hcode := Text.toNat_byte hc.isAscii
    rw [Text.utf8_cons_ascii hc.isAscii]
    refine List.forall_mem_cons.2 ⟨?_, ih ht⟩
    unfold IsHeaderChar at hc
    simp only [Bool.or_eq_true, Bool.and_eq_true, decide_eq_true_eq, UInt8.le_iff_toNat_le, UInt8.reduceToNat,
      ne_eq, ← UInt8.toNat_inj, hcode]
    omega

theorem fields_of_headerChars (h : ∀ c ∈ t, IsHeaderChar c) :
    (t.splitOn ';').map Text.trim = (t.splitOn ';').map (Text.trimBy isBlank) := by
  refine List.map_congr_left fun piece hpiece => ?_
  exact Text.trimBy_congr fun c hc => (h c ((Text.splitOn_mem hpiece).2.subset hc)).isWhitespace

/-! ## What is left of the cookies -/

/-- The pairs that `strip_port_cookie` keeps. -/
def keptPairs (value : List UInt8) : List Text := (pairsOf value).filter (!isSessionPair ·)

theorem stripPortCookie_eq (h : headerToStr value = some t) :
    stripPortCookie t = if keptPairs value ≠ [] then some ([';', ' '].intercalate (keptPairs value)) else none := by
  obtain ⟨rfl, hchars⟩ := headerToStr_eq_some h
  have hkept : (((latin1 value).splitOn ';').map Text.trim).filter
      (fun pair => pair ≠ [] ∧ ¬ sessionPrefix.isPrefixOf pair) = keptPairs value := by
    rw [keptPairs, pairsOf, Text.fields, fields_of_headerChars hchars, List.filter_filter]
    congr 1
    funext pair
    show decide (pair ≠ [] ∧ ¬ isSessionPair pair = true) = (!isSessionPair pair && decide (pair ≠ []))
    cases isSessionPair pair <;> simp
  unfold stripPortCookie
  dsimp only
  rw [hkept]

theorem keptPairs_mem {pair : Text} (h : pair ∈ keptPairs value) :
    Text.trimBy isBlank pair = pair ∧ pair ≠ [] ∧ ';' ∉ pair ∧ pair <:+: latin1 value :=
  Text.fields_mem (List.mem_filter.1 h).1

theorem mem_intercalate {sep : Text} {ts : List Text} (h : c ∈ sep.intercalate ts) : c ∈ sep ∨ ∃ t ∈ ts, c ∈ t := by
  induction ts with
  | nil => cases h
  | cons t ts ih =>
    cases ts with
    | nil =>
      rw [List.intercalate_singleton] at h
      exact .inr ⟨t, List.mem_cons_self .., h⟩
    | cons u ts =>
      rw [List.intercalate_cons_cons, List.mem_append, List.mem_append] at h
      rcases h with (h | h) | h
      · exact .inr ⟨t, List.mem_cons_self .., h⟩
      · exact .inl h
      · exact (ih h).imp_right fun ⟨v, hv, hc⟩ => ⟨v, List.mem_cons_of_mem _ hv, hc⟩

/-- What is left of a line that is a string: its other pairs, on one line if there is any. -/
theorem cookiePairs_withoutPortCookie {line : List UInt8} {rest : List (List UInt8)}
    (hlines : headers.lines "cookie" = line :: rest) (h : headerToStr line = some t) :
    cookiePairs (withoutPortCookie headers) = keptPairs line := by
  have hget : (headers.get "cookie").bind headerToStr = some t := by
    rw [HeaderMap.get_eq_head?, hlines]
    exact h
  rw [withoutPortCookie, hget, Option.map_some, stripPortCookie_eq h]
  by_cases hkept : keptPairs line = []
  · rw [if_neg (not_not.2 hkept), hkept]
    show ((headers.remove "cookie").lines "cookie").flatMap pairsOf = []
    rw [HeaderMap.lines_remove_self]
    rfl
  · have hchars : ∀ c ∈ [';', ' '].intercalate (keptPairs line), IsHeaderChar c := by
      obtain ⟨rfl, hline⟩ := headerToStr_eq_some h
      intro c hc
      rcases mem_intercalate hc with hc | ⟨pair, hpair, hc⟩
      · have hseparators : ∀ c ∈ [';', ' '], 0x20 ≤ c.toNat ∧ c.toNat < 0x7F := by decide
        exact .inl (hseparators c hc)
      · exact hline c ((keptPairs_mem hpair).2.2.2.subset hc)
    rw [if_pos hkept]
    dsimp only
    rw [headerFromStr_eq_some hchars]
    show ((headers.insert "cookie" _).lines "cookie").flatMap pairsOf = _
    rw [HeaderMap.lines_insert_self, List.flatMap_singleton, pairsOf, latin1_utf8 hchars]
    exact Text.fields_join (by decide) (by decide) fun pair hpair =>
      ⟨(keptPairs_mem hpair).1, (keptPairs_mem hpair).2.1, (keptPairs_mem hpair).2.2.1⟩

theorem withoutPortCookie_of_none (h : (headers.get "cookie").bind headerToStr = none) :
    withoutPortCookie headers = headers := by
  rw [withoutPortCookie, h]; rfl

/-- When the other pairs of one line are left, the pairs of `rest` are lost. -/
theorem hidesSession_of_kept {line : List UInt8} {rest : List Text} (hafter : cookiePairs after = keptPairs line)
    (hbefore : cookiePairs before = pairsOf line ++ rest) :
    HidesSession before after ↔ ∀ pair ∈ rest, isSessionPair pair = true := by
  have hhidden : ∀ pair ∈ keptPairs line, isSessionPair pair = false := fun pair hpair => by
    simpa using (List.mem_filter.1 hpair).2
  have hkept : (cookiePairs after).filter (!isSessionPair ·) = keptPairs line := by
    rw [hafter]
    exact List.filter_eq_self.2 fun pair hpair => by rw [hhidden pair hpair]; rfl
  have hothers : (cookiePairs before).filter (!isSessionPair ·) = keptPairs line ++ rest.filter (!isSessionPair ·) := by
    rw [hbefore, List.filter_append]; rfl
  have hlost : rest.filter (!isSessionPair ·) = [] ↔ ∀ pair ∈ rest, isSessionPair pair = true := by
    simp [List.filter_eq_nil_iff]
  rw [← hlost]
  constructor
  · intro h
    have he := h.others
    rw [hkept, hothers] at he
    exact List.self_eq_append_right.1 he
  · intro h
    exact ⟨by rw [hafter]; exact hhidden, by rw [hkept, hothers, h, List.append_nil]⟩

theorem hidesSession_of_eq (h : cookiePairs after = cookiePairs before) :
    HidesSession before after ↔ ∀ pair ∈ cookiePairs before, isSessionPair pair = false :=
  ⟨fun hhides => h ▸ hhides.hidden, fun hhidden => ⟨h.symm ▸ hhidden, by rw [h]⟩⟩

/-- The app gets exactly the other cookies of a request if and only if the session is on a first line that the proxy
can read, with no other cookie on a further line, or on no line. -/
theorem forwarded_cookies (cfg : ProxyConfig) (addressFamily : Option (Bool × Bool)) (uriScheme : Option Text)
    (target : Port) (headers : Headers) :
    HidesSession headers (forwardHeaders cfg addressFamily uriScheme target headers) ↔ SessionOnFirstLine headers := by
  have hstrip : (stripHopByHop headers).lines "cookie" = headers.lines "cookie" := lines_stripHopByHop
  have hafter : cookiePairs (forwardHeaders cfg addressFamily uriScheme target headers) =
      cookiePairs (withoutPortCookie (stripHopByHop headers)) := by
    rw [cookiePairs, lines_forwardHeaders]; rfl
  have hbefore : cookiePairs (stripHopByHop headers) = cookiePairs headers := by rw [cookiePairs, hstrip]; rfl
  have hget : (stripHopByHop headers).get "cookie" = (headers.lines "cookie").head? := by
    rw [HeaderMap.get_eq_head?, hstrip]
  unfold SessionOnFirstLine
  cases hlines : headers.lines "cookie" with
  | nil =>
    have hnone : cookiePairs headers = [] := by rw [cookiePairs, hlines]; rfl
    rw [withoutPortCookie_of_none (by rw [hget, hlines]; rfl), hbefore] at hafter
    rw [hidesSession_of_eq hafter, hnone]
    exact iff_of_true (fun _ h => absurd h List.not_mem_nil) trivial
  | cons line rest =>
    have hall : cookiePairs headers = pairsOf line ++ rest.flatMap pairsOf := by
      rw [cookiePairs, hlines, List.flatMap_cons]
    dsimp only
    cases hstr : headerToStr line with
    | some t =>
      rw [cookiePairs_withoutPortCookie (hstrip.trans hlines) hstr] at hafter
      rw [if_pos (by rfl)]
      exact hidesSession_of_kept hafter hall
    | none =>
      rw [withoutPortCookie_of_none (by rw [hget, hlines]; exact hstr), hbefore] at hafter
      rw [if_neg (by exact Bool.false_ne_true), List.flatMap_cons, ← hall]
      exact hidesSession_of_eq hafter

/-- A public app on slot 8444. -/
def samplePublicState : ProxyState :=
  ⟨(ForwardsState.withSlots proxySlots).insert { sampleForward with visibility := .pub, slot := some 8444 }, .empty⟩

/-- The first line ends in a letter outside ASCII. -/
def sampleLatinRequest : Request :=
  ⟨"GET", ['/'], none, [("cookie", sessionPrefix.utf8 ++ Text.utf8 "t; name=é".toList)]⟩

/-- The app of a public port is sent the session. -/
theorem session_forwarded : ¬ ∀ (c : Crates) (host : Host) (cfg : ProxyConfig) (addressFamily : Option (Bool × Bool))
    (uriScheme : Option Text) (req : Request) (now : Nat) (st : ProxyState) (target : Port),
    forward c host cfg req now st = .proxy target →
      HidesSession req.headers (forwardHeaders cfg addressFamily uriScheme target req.headers) := by
  intro h
  have hhides := h sampleCrates { sampleHost with ownerOfPort := fun _ => some 1 } sampleConfig none none
    sampleLatinRequest 0 samplePublicState 3000 (by decide)
  have hleak : "zs_port_session=t".toList ∈
      cookiePairs (forwardHeaders sampleConfig none none 3000 sampleLatinRequest.headers) := by decide
  exact absurd (hhides.hidden _ hleak) (by decide)

end Zedspaces.Supervisor
