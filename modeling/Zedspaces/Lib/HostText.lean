/-
The host of a URL as the URL standard has it: a domain, an IPv4 or an IPv6 address, and the text it is written as. An
IPv4 address is written in dotted decimals, an IPv6 address in brackets with its longest run of zero groups elided.
What is written of an address reads back as that address (`UrlHost.parse_ipv4`, `UrlHost.parse_ipv6`).
-/
import Zedspaces.Lib.IpAddr

namespace Zedspaces.Lib

/-! ## Writing -/

/-- The groups from the `i`-th on: all but the first stand behind a colon. -/
def groupsText : Nat → List Nat → Text
  | _, [] => []
  | i, group :: groups => (if i = 0 then [] else [':']) ++ (Nat.toDigits 16 group ++ groupsText (i + 1) groups)

/-- Where the longest run of zeros starts and how long it is; the first of the longest. -/
def longestZeros : List Nat → Nat × Nat
  | [] => (0, 0)
  | group :: groups =>
    let here := ((group :: groups).takeWhile (· = 0)).length
    let (start, length) := longestZeros groups
    if length ≤ here then (0, here) else (start + 1, length)

def Ipv4Addr.text (ip : Ipv4Addr) : Text :=
  Nat.toDigits 10 ip.a ++ '.' :: (Nat.toDigits 10 ip.b ++ '.' ::
    (Nat.toDigits 10 ip.c ++ '.' :: Nat.toDigits 10 ip.d))

/-- A lone zero is written out. -/
def Ipv6Addr.text (ip : Ipv6Addr) : Text :=
  let (start, length) := longestZeros ip.segments
  if length < 2 then groupsText 0 ip.segments
  else groupsText 0 (ip.segments.take start) ++ ':' :: ':' :: groupsText 0 (ip.segments.drop (start + length))

inductive UrlHost where
  | domain (name : Text)
  | ipv4 (addr : Ipv4Addr)
  | ipv6 (addr : Ipv6Addr)
  deriving DecidableEq

namespace UrlHost

def text : UrlHost → Text
  | domain name => name
  | ipv4 addr => addr.text
  | ipv6 addr => '[' :: (addr.text ++ [']'])

/-- Octets and groups in range, eight groups. -/
def Valid : UrlHost → Prop
  | domain _ => True
  | ipv4 addr => addr.a < 256 ∧ addr.b < 256 ∧ addr.c < 256 ∧ addr.d < 256
  | ipv6 addr => addr.segments.length = 8 ∧ ∀ group ∈ addr.segments, group < 65536

end UrlHost

namespace IpAddr

/-! ## A number reads back -/

theorem digitValue_digitChar {radix d : Nat} (hr : radix ≤ 16) (hd : d < radix) :
    digitValue radix d.digitChar = some d := by
  have hall : ∀ d : Fin 16, digitValue 16 d.val.digitChar = some d.val := by decide
  obtain ⟨hvalue, -⟩ := Option.filter_eq_some_iff.1 (hall ⟨d, by omega⟩)
  exact Option.filter_eq_some_iff.2 ⟨hvalue, decide_eq_true hd⟩

section
variable {radix : Nat} (h2 : 2 ≤ radix) (hr : radix ≤ 16)
include h2 hr

theorem isSome_of_mem_toDigits (n : Nat) : ∀ c ∈ Nat.toDigits radix n, (digitValue radix c).isSome = true := by
  induction n using Nat.strongRecOn with
  | ind n ih =>
    intro c hc
    by_cases hn : n < radix
    · rw [Nat.toDigits_of_lt_base hn, List.mem_singleton] at hc
      rw [hc, digitValue_digitChar hr hn]
      rfl
    · rw [Nat.toDigits_of_base_le (by omega) (by omega)] at hc
      rcases List.mem_append.1 hc with hc | hc
      · exact ih (n / radix) (Nat.div_lt_self (by omega) (by omega)) c hc
      · rw [List.mem_singleton.1 hc, digitValue_digitChar hr (Nat.mod_lt n (by omega))]
        rfl

theorem foldl_toDigits (n : Nat) :
    ((Nat.toDigits radix n).filterMap (digitValue radix)).foldl (fun n d => n * radix + d) 0 = n := by
  induction n using Nat.strongRecOn with
  | ind n ih =>
    by_cases hn : n < radix
    · rw [Nat.toDigits_of_lt_base hn, List.filterMap_cons_some (digitValue_digitChar hr hn)]
      simp
    · have hlt : n / radix < n := Nat.div_lt_self (by omega) (by omega)
      rw [Nat.toDigits_of_base_le (by omega) (by omega), List.filterMap_append, List.foldl_append, ih _ hlt,
        List.filterMap_cons_some (digitValue_digitChar hr (Nat.mod_lt n (by omega)))]
      simpa [Nat.mul_comm] using Nat.div_add_mod n radix

theorem head_toDigits {n : Nat} (h : (Nat.toDigits radix n).head? = some '0') : n = 0 := by
  induction n using Nat.strongRecOn with
  | ind n ih =>
    by_cases hn : n < radix
    · rw [Nat.toDigits_of_lt_base hn] at h
      exact Nat.digitChar_eq_zero.1 (Option.some.inj h)
    · obtain ⟨c, digits, hdigits⟩ := List.exists_cons_of_ne_nil (Nat.toDigits_ne_nil (n := n / radix) (b := radix))
      rw [Nat.toDigits_of_base_le (by omega) (by omega), hdigits, List.cons_append, List.head?_cons] at h
      have hzero : n / radix = 0 :=
        ih _ (Nat.div_lt_self (by omega) (by omega)) (by rw [hdigits, List.head?_cons, h])
      have hpos : 0 < n / radix := Nat.div_pos (by omega) (by omega)
      omega

/-- What is written of a number within the reader's limits is read, up to what cannot be a digit. -/
theorem readNumber_toDigits {maxDigits bound n : Nat} {zero : Bool} {rest : Text} (hbound : n ≤ bound)
    (hlen : (Nat.toDigits radix n).length ≤ maxDigits)
    (hrest : ∀ c, rest.head? = some c → digitValue radix c = none) :
    readNumber radix maxDigits bound zero (Nat.toDigits radix n ++ rest) = some (n, rest) := by
  have hdigits : (Nat.toDigits radix n ++ rest).takeWhile (fun c => (digitValue radix c).isSome) =
      Nat.toDigits radix n := by
    rw [List.takeWhile_append_of_pos (isSome_of_mem_toDigits h2 hr n)]
    cases rest with
    | nil => simp
    | cons c rest => simp [hrest c rfl]
  have hzero : ¬ ((Nat.toDigits radix n).head? = some '0' ∧ 1 < (Nat.toDigits radix n).length) := by
    rintro ⟨hhead, hlt⟩
    rw [head_toDigits h2 hr hhead, Nat.toDigits_zero] at hlt
    simp at hlt
  unfold readNumber
  simp only [hdigits, foldl_toDigits h2 hr]
  rw [if_neg (by simp [Nat.toDigits_ne_nil]; omega), if_neg fun h => hzero h.2, List.drop_left]

end

theorem readNumber_none {radix maxDigits bound : Nat} {zero : Bool} {t : Text}
    (h : ∀ c, t.head? = some c → digitValue radix c = none) : readNumber radix maxDigits bound zero t = none := by
  have hdigits : t.takeWhile (fun c => (digitValue radix c).isSome) = [] := by
    cases t with
    | nil => rfl
    | cons c t => simp [h c rfl]
  unfold readNumber
  simp [hdigits]

/-! ## An IPv4 address reads back -/

theorem readOctet_toDigits {n : Nat} (hn : n < 256) {rest : Text} (hrest : rest = [] ∨ ∃ t, rest = '.' :: t) :
    readNumber 10 3 255 false (Nat.toDigits 10 n ++ rest) = some (n, rest) := by
  refine readNumber_toDigits (by omega) (by omega) (by omega) ?_ ?_
  · exact (Nat.length_toDigits_le_iff (by omega) (by omega)).2 (by omega)
  · rcases hrest with rfl | ⟨t, rfl⟩
    · simp
    · rintro c hc
      rw [← Option.some.inj hc]
      rfl

theorem readIpv4_text {ip : Ipv4Addr} (h : (UrlHost.ipv4 ip).Valid) : readIpv4 ip.text = some (ip, []) := by
  obtain ⟨ha, hb, hc, hd⟩ := h
  have hlast : readNumber 10 3 255 false (Nat.toDigits 10 ip.d ++ []) = some (ip.d, []) :=
    readOctet_toDigits hd (.inl rfl)
  rw [List.append_nil] at hlast
  simp [readIpv4, readOctet, readSeparator, Ipv4Addr.text, hlast, readOctet_toDigits ha (.inr ⟨_, rfl⟩),
    readOctet_toDigits hb (.inr ⟨_, rfl⟩), readOctet_toDigits hc (.inr ⟨_, rfl⟩)]

/-- An address of octets has a dot. -/
theorem readIpv4_none {t : Text} (h : '.' ∉ t) : readIpv4 t = none := by
  unfold readIpv4
  cases hfirst : readOctet 0 t with
  | none => rfl
  | some p =>
    obtain ⟨a, rest⟩ := p
    obtain ⟨w, rfl, -⟩ := reads_octet 0 _ _ _ hfirst
    have hsecond : readOctet 1 rest = none := by
      cases rest with
      | nil => rfl
      | cons c rest => exact if_neg fun hc => h (by simp [hc])
    simp [hsecond]

/-! ## An IPv6 address reads back -/

theorem not_mem_groupsText (i : Nat) (groups : List Nat) : '.' ∉ groupsText i groups := by
  induction groups generalizing i with
  | nil => simp [groupsText]
  | cons group groups ih =>
    have hdigits : '.' ∉ Nat.toDigits 16 group := fun h =>
      absurd (isSome_of_mem_toDigits (by omega) (by omega) group _ h) (by decide)
    unfold groupsText
    split <;> simp [hdigits, ih (i + 1)]

/-- The end of the text, or the elision. -/
def EndsGroups (rest : Text) : Prop := rest = [] ∨ ∃ t, rest = ':' :: ':' :: t

theorem EndsGroups.separator {rest : Text} (h : EndsGroups rest) (i : Nat) :
    readSeparator ':' i (readNumber 16 4 65535 true) rest = none := by
  rcases h with rfl | ⟨t, rfl⟩
  · unfold readSeparator
    split
    · exact readNumber_none (by simp)
    · rfl
  · have hcolon : ∀ t : Text, readNumber 16 4 65535 true (':' :: t) = none := fun t => by
      refine readNumber_none fun c hc => ?_
      rw [← Option.some.inj hc]
      rfl
    unfold readSeparator
    split
    · exact hcolon _
    · simp [hcolon]

theorem EndsGroups.group {rest : Text} (h : EndsGroups rest) (i : Nat) (groups : List Nat) :
    ∀ c, (groupsText (i + 1) groups ++ rest).head? = some c → digitValue 16 c = none := by
  rintro c hc
  have hcolon : c = ':' := by
    cases groups with
    | nil =>
      rcases h with rfl | ⟨t, rfl⟩
      · cases hc
      · exact (Option.some.inj hc).symm
    | cons group groups => exact (Option.some.inj hc).symm
  rw [hcolon]
  rfl

theorem readEmbedded_none {left i : Nat} {t : Text} (h : '.' ∉ t) : readEmbedded left i t = none := by
  unfold readEmbedded
  split
  · unfold readSeparator
    split
    · exact readIpv4_none h
    · split
      · rename_i c t _
        split
        · exact readIpv4_none fun hdot => h (List.mem_cons_of_mem _ hdot)
        · rfl
      · rfl
  · rfl

theorem readGroups_groupsText (left i : Nat) (groups : List Nat) {rest : Text} (hleft : groups.length ≤ left)
    (hgroups : ∀ group ∈ groups, group < 65536) (hends : EndsGroups rest) (hdot : '.' ∉ rest) :
    readGroups left i (groupsText i groups ++ rest) = (groups, false, rest) := by
  induction groups generalizing left i with
  | nil =>
    cases left with
    | zero => rfl
    | succ left =>
      unfold readGroups
      simp [groupsText, readEmbedded_none hdot, hends.separator i]
  | cons group groups ih =>
    obtain ⟨left, rfl⟩ : ∃ left', left = left' + 1 := ⟨left - 1, by simp at hleft; omega⟩
    have hgroup : group < 65536 := hgroups group (List.mem_cons_self ..)
    have hnumber : readNumber 16 4 65535 true (Nat.toDigits 16 group ++ (groupsText (i + 1) groups ++ rest)) =
        some (group, groupsText (i + 1) groups ++ rest) :=
      readNumber_toDigits (by omega) (by omega) (by omega)
        ((Nat.length_toDigits_le_iff (by omega) (by omega)).2 (by omega)) (hends.group i groups)
    have hread : readSeparator ':' i (readNumber 16 4 65535 true) (groupsText i (group :: groups) ++ rest) =
        some (group, groupsText (i + 1) groups ++ rest) := by
      rw [groupsText]
      by_cases hi : i = 0
      · simpa [readSeparator, hi] using hnumber
      · simpa [readSeparator, hi] using hnumber
    have hnone : readEmbedded (left + 1) i (groupsText i (group :: groups) ++ rest) = none :=
      readEmbedded_none fun h => (List.mem_append.1 h).elim (not_mem_groupsText i _) hdot
    have htail := ih left (i + 1) (by simp at hleft; omega)
      fun g hg => hgroups g (List.mem_cons_of_mem _ hg)
    unfold readGroups
    simp [hnone, hread, htail]

theorem longestZeros_spec (groups : List Nat) : ∃ head tail,
    groups = head ++ (List.replicate (longestZeros groups).2 0 ++ tail) ∧ head.length = (longestZeros groups).1 := by
  induction groups with
  | nil => exact ⟨[], [], rfl, rfl⟩
  | cons group groups ih =>
    obtain ⟨head, tail, hgroups, hlen⟩ := ih
    rw [longestZeros]
    generalize longestZeros groups = zeros at hgroups hlen
    obtain ⟨start, length⟩ := zeros
    dsimp only at hgroups hlen ⊢
    split
    · have hrun : (group :: groups).takeWhile (· = 0) =
          List.replicate ((group :: groups).takeWhile (· = 0)).length 0 :=
        List.eq_replicate_iff.2 ⟨rfl, fun n hn => of_decide_eq_true (List.all_eq_true.1 List.all_takeWhile n hn)⟩
      refine ⟨[], (group :: groups).dropWhile (· = 0), ?_, rfl⟩
      rw [List.nil_append, ← hrun]
      exact List.takeWhile_append_dropWhile.symm
    · exact ⟨group :: head, tail, by rw [List.cons_append, ← hgroups], by simp [hlen]⟩

theorem readIpv6_text {ip : Ipv6Addr} (h : (UrlHost.ipv6 ip).Valid) :
    '.' ∉ ip.text ∧ readIpv6 ip.text = some (ip, []) := by
  obtain ⟨segments⟩ := ip
  obtain ⟨hlen, hgroups⟩ := h
  obtain ⟨head, tail, hsegments, hhead⟩ := longestZeros_spec segments
  unfold Ipv6Addr.text
  dsimp only at hlen hgroups ⊢
  generalize longestZeros segments = zeros at hsegments hhead
  obtain ⟨start, length⟩ := zeros
  dsimp only at hsegments hhead ⊢
  split
  · have hread := readGroups_groupsText 8 0 segments (by omega) hgroups (.inl rfl) List.not_mem_nil
    rw [List.append_nil] at hread
    refine ⟨not_mem_groupsText 0 _, ?_⟩
    simp [readIpv6, hread, hlen]
  · have htake : segments.take start = head := by rw [hsegments, ← hhead, List.take_left]
    have hdrop : segments.drop (start + length) = tail := by
      rw [hsegments, ← List.append_assoc]
      exact List.drop_left' (by simp [hhead])
    have hcount : head.length + (length + tail.length) = 8 := by rw [← hlen, hsegments]; simp
    have htail := readGroups_groupsText (8 - (head.length + 1)) 0 tail (by omega)
      (fun g hg => hgroups g (by rw [hsegments]; simp [hg])) (.inl rfl) List.not_mem_nil
    rw [List.append_nil] at htail
    have hdot : '.' ∉ ':' :: ':' :: groupsText 0 tail := by simp [not_mem_groupsText 0 tail]
    have hread := readGroups_groupsText 8 0 head (by omega)
      (fun g hg => hgroups g (by rw [hsegments]; simp [hg])) (.inr ⟨_, rfl⟩) hdot
    have hzero : 8 - head.length - tail.length = length := by omega
    rw [htake, hdrop]
    refine ⟨fun h => (List.mem_append.1 h).elim (not_mem_groupsText 0 _) hdot, ?_⟩
    simp only [readIpv6, hread, htail]
    rw [if_neg (by omega), hzero]
    simp [hsegments]

end IpAddr

/-! ## The host reads back -/

namespace UrlHost

theorem parse_ipv4 {addr : Ipv4Addr} (h : (ipv4 addr).Valid) : IpAddr.parse addr.text = some (.v4 addr) := by
  simp [IpAddr.parse, IpAddr.readIpAddr, IpAddr.readIpv4_text h]

theorem parse_ipv6 {addr : Ipv6Addr} (h : (ipv6 addr).Valid) : IpAddr.parse addr.text = some (.v6 addr) := by
  obtain ⟨hdot, hread⟩ := IpAddr.readIpv6_text h
  simp [IpAddr.parse, IpAddr.readIpAddr, IpAddr.readIpv4_none hdot, hread]

example : (UrlHost.ipv6 ⟨[0, 0, 0, 0, 0, 65535, 32512, 1]⟩).text = "[::ffff:7f00:1]".toList := by decide

end UrlHost

end Zedspaces.Lib
