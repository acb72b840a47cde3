/-
Which hosts an archive's URL may name. The ranges of addresses that are no public ones are stated as blocks of address
values, for both families and for IPv4 addresses mapped into IPv6; the hand-written tests of octets and groups keep
out all of them but the benchmarking range, although the comment beside the test says that it is kept out too
(`tarball_hosts`).
-/
import Zedspaces.Lib.Fallible
import Zedspaces.Lib.HostText
import Zedspaces.Supervisor.Manifest

namespace Zedspaces.Supervisor

open Lib

/-! ## Blocks of addresses -/

/-- The addresses that agree with `base` on all but the lowest `free` bits. -/
structure Block where
  base : Nat
  free : Nat

namespace Block

def Holds (block : Block) (value : Nat) : Prop := value / 2 ^ block.free = block.base / 2 ^ block.free

instance (block : Block) (value : Nat) : Decidable (block.Holds value) := by
  unfold Holds
  exact inferInstance

end Block

def ipv4Value (ip : Ipv4Addr) : Nat := ((ip.a * 256 + ip.b) * 256 + ip.c) * 256 + ip.d

def ipv6Value (ip : Ipv6Addr) : Nat := ip.segments.foldl (fun value group => value * 65536 + group) 0

/-- `a.b.c.d/bits` -/
def ipv4Block (a b c d bits : Nat) : Block := ⟨ipv4Value ⟨a, b, c, d⟩, 32 - bits⟩

/-- `segments/bits` -/
def ipv6Block (segments : List Nat) (bits : Nat) : Block := ⟨ipv6Value ⟨segments⟩, 128 - bits⟩

def benchmarking : Block := ipv4Block 198 18 0 0 15

/-- Loopback, link-local, private, unspecified and carrier-grade NAT. -/
def localBlocks : List Block :=
  [ipv4Block 127 0 0 0 8, ipv4Block 169 254 0 0 16, ipv4Block 10 0 0 0 8, ipv4Block 172 16 0 0 12,
    ipv4Block 192 168 0 0 16, ipv4Block 0 0 0 0 32, ipv4Block 100 64 0 0 10]

/-- The same of IPv6: loopback, link-local, unique local and unspecified. -/
def localBlocks6 : List Block :=
  [ipv6Block [0, 0, 0, 0, 0, 0, 0, 1] 128, ipv6Block [0xfe80, 0, 0, 0, 0, 0, 0, 0] 10,
    ipv6Block [0xfc00, 0, 0, 0, 0, 0, 0, 0] 7, ipv6Block [0, 0, 0, 0, 0, 0, 0, 0] 128]

/-- `::ffff:0:0/96` -/
def mappedBlock : Block := ipv6Block [0, 0, 0, 0, 0, 0xffff, 0, 0] 96

/-! ## Hosts in a block -/

/-- The IPv4 address that the host is, or that is mapped into it. -/
def hostIpv4 : UrlHost → Option Nat
  | .domain _ => none
  | .ipv4 addr => some (ipv4Value addr)
  | .ipv6 addr => if mappedBlock.Holds (ipv6Value addr) then some (ipv6Value addr % 2 ^ 32) else none

def HostIn (block : Block) (host : UrlHost) : Prop := ∃ value ∈ hostIpv4 host, block.Holds value

def HostIn6 (block : Block) : UrlHost → Prop
  | .ipv6 addr => block.Holds (ipv6Value addr)
  | _ => False

/-- In a range that is kept out, the benchmarking one aside. -/
def HostLocal (host : UrlHost) : Prop :=
  (∃ block ∈ localBlocks, HostIn block host) ∨ ∃ block ∈ localBlocks6, HostIn6 block host

/-- No place for an archive. -/
def HostInside (host : UrlHost) : Prop := HostLocal host ∨ HostIn benchmarking host

/-- What `Url::host` gives is in range, and `Url::host_str` is how it is written. -/
structure Hosts (parse : Text → Except String Url) (hostOf : Url → Option UrlHost) : Prop where
  text : ∀ t url, parse t = .ok url → url.host = (hostOf url).map UrlHost.text
  valid : ∀ t url, parse t = .ok url → ∀ host, hostOf url = some host → host.Valid

/-! ## `is_public_ip` -/

section
variable {ip : Ipv4Addr} (hvalid : (UrlHost.ipv4 ip).Valid)
include hvalid

theorem holds_first {a : Nat} : (ipv4Block a 0 0 0 8).Holds (ipv4Value ip) ↔ ip.a = a := by
  obtain ⟨ha, hb, hc, hd⟩ := hvalid
  simp only [Block.Holds, ipv4Block, ipv4Value]
  omega

theorem holds_second {a b : Nat} (hb' : b < 256) :
    (ipv4Block a b 0 0 16).Holds (ipv4Value ip) ↔ ip.a = a ∧ ip.b = b := by
  obtain ⟨ha, hb, hc, hd⟩ := hvalid
  simp only [Block.Holds, ipv4Block, ipv4Value]
  omega

/-- An address that passes is in no block but, maybe, the benchmarking one. -/
theorem isPublicIpv4_local (h : isPublicIpv4 ip = true) : ∀ block ∈ localBlocks, ¬ block.Holds (ipv4Value ip) := by
  simp only [isPublicIpv4, Bool.not_eq_true', Bool.or_eq_false_iff] at h
  obtain ⟨⟨⟨⟨⟨⟨⟨⟨⟨⟨hloop, hlink⟩, hten⟩, h172⟩, h192⟩, hzero⟩, -⟩, -⟩, -⟩, -⟩, hnat⟩ := h
  simp only [Bool.and_eq_false_iff, decide_eq_false_iff_not] at hloop hlink hten h172 h192 hzero hnat
  simp only [localBlocks, List.forall_mem_cons, List.not_mem_nil, false_implies, implies_true, and_true,
    holds_first hvalid, holds_second hvalid (show 254 < 256 by omega), holds_second hvalid (show 168 < 256 by omega)]
  refine ⟨hloop, by omega, hten, ?_, by omega, ?_, ?_⟩
  · intro h
    obtain ⟨ha, hb, hc, hd⟩ := hvalid
    simp only [Block.Holds, ipv4Block, ipv4Value] at h
    omega
  · intro h
    obtain ⟨a, b, c, d⟩ := ip
    simp only [Block.Holds, ipv4Block, ipv4Value, Ipv4Addr.mk.injEq] at h hzero
    omega
  · intro h
    obtain ⟨ha, hb, hc, hd⟩ := hvalid
    simp only [Block.Holds, ipv4Block, ipv4Value] at h
    omega

/-- The test of 100.64.0.0/10 stands alone: the benchmarking range passes. -/
theorem isPublicIpv4_benchmarking (h : benchmarking.Holds (ipv4Value ip)) : isPublicIpv4 ip = true := by
  obtain ⟨a, b, c, d⟩ := ip
  obtain ⟨ha, hb, hc, hd⟩ := hvalid
  simp only [benchmarking, ipv4Block, ipv4Value, Block.Holds] at ha hb hc hd h
  have hnet : a = 198 ∧ (b = 18 ∨ b = 19) := by omega
  obtain ⟨rfl, rfl | rfl⟩ := hnet <;> simp [isPublicIpv4]

end

/-- The address mapped into the groups. -/
def mappedIpv4 (hi lo : Nat) : Ipv4Addr := ⟨hi / 256, hi % 256, lo / 256, lo % 256⟩

theorem isPublicIp_mapped (hi lo : Nat) :
    isPublicIp (.v6 ⟨[0, 0, 0, 0, 0, 65535, hi, lo]⟩) = isPublicIpv4 (mappedIpv4 hi lo) := rfl

theorem mapped_value (hi lo : Nat) :
    ipv6Value ⟨[0, 0, 0, 0, 0, 65535, hi, lo]⟩ = 65535 * 2 ^ 32 + ipv4Value (mappedIpv4 hi lo) := by
  simp only [ipv6Value, ipv4Value, mappedIpv4, List.foldl_cons, List.foldl_nil]
  omega

/-- Eight groups are a mapped address or not. -/
theorem mapped_or {addr : Ipv6Addr} (hvalid : (UrlHost.ipv6 addr).Valid) :
    (∃ hi lo, addr = ⟨[0, 0, 0, 0, 0, 65535, hi, lo]⟩) ∨ ¬ mappedBlock.Holds (ipv6Value addr) := by
  obtain ⟨segments⟩ := addr
  obtain ⟨hlen, hgroups⟩ := hvalid
  match segments, hlen with
  | [s₀, s₁, s₂, s₃, s₄, s₅, s₆, s₇], _ =>
    simp only [List.forall_mem_cons, List.not_mem_nil, false_implies, implies_true, and_true] at hgroups
    by_cases hmapped : s₀ = 0 ∧ s₁ = 0 ∧ s₂ = 0 ∧ s₃ = 0 ∧ s₄ = 0 ∧ s₅ = 65535
    · obtain ⟨rfl, rfl, rfl, rfl, rfl, rfl⟩ := hmapped
      exact .inl ⟨s₆, s₇, rfl⟩
    · refine .inr fun h => hmapped ?_
      simp only [mappedBlock, ipv6Block, ipv6Value, Block.Holds, List.foldl_cons, List.foldl_nil] at h
      omega

theorem mapped_holds {hi lo : Nat} (hvalid : (UrlHost.ipv6 ⟨[0, 0, 0, 0, 0, 65535, hi, lo]⟩).Valid) :
    (UrlHost.ipv4 (mappedIpv4 hi lo)).Valid ∧
      hostIpv4 (.ipv6 ⟨[0, 0, 0, 0, 0, 65535, hi, lo]⟩) = some (ipv4Value (mappedIpv4 hi lo)) := by
  obtain ⟨-, hgroups⟩ := hvalid
  have hhi : hi < 65536 := hgroups hi (by simp)
  have hlo : lo < 65536 := hgroups lo (by simp)
  have hlt : ipv4Value (mappedIpv4 hi lo) < 2 ^ 32 := by
    simp only [ipv4Value, mappedIpv4]
    omega
  have hblock : mappedBlock.Holds (65535 * 2 ^ 32 + ipv4Value (mappedIpv4 hi lo)) := by
    simp only [mappedBlock, ipv6Block, ipv6Value, Block.Holds, List.foldl_cons, List.foldl_nil]
    omega
  refine ⟨⟨?_, ?_, ?_, ?_⟩, ?_⟩
  · show hi / 256 < 256
    omega
  · show hi % 256 < 256
    omega
  · show lo / 256 < 256
    omega
  · show lo % 256 < 256
    omega
  · simp only [hostIpv4, mapped_value]
    rw [if_pos hblock, Nat.mul_add_mod_self_right, Nat.mod_eq_of_lt hlt]

/-- An address that no IPv4 address is mapped into passes the tests of its groups only. -/
theorem isPublicIp_local6 {addr : Ipv6Addr} (hvalid : (UrlHost.ipv6 addr).Valid)
    (h : isPublicIp (.v6 addr) = true) : ∀ block ∈ localBlocks6, ¬ block.Holds (ipv6Value addr) := by
  obtain ⟨segments⟩ := addr
  obtain ⟨hlen, hgroups⟩ := hvalid
  match segments, hlen with
  | [s₀, s₁, s₂, s₃, s₄, s₅, s₆, s₇], _ =>
    simp only [List.forall_mem_cons, List.not_mem_nil, false_implies, implies_true, and_true] at hgroups
    have htests : ¬ (s₀ = 0 ∧ s₁ = 0 ∧ s₂ = 0 ∧ s₃ = 0 ∧ s₄ = 0 ∧ s₅ = 0 ∧ s₆ = 0 ∧ s₇ ≤ 1) ∧
        s₀ / 512 ≠ 0xfc00 / 512 ∧ s₀ / 64 ≠ 0xfe80 / 64 := by
      simp only [isPublicIp] at h
      split at h
      case h_1 hi lo heq =>
        simp only [List.cons.injEq, and_true] at heq
        omega
      case h_2 =>
        simp only [Bool.not_eq_true', Bool.or_eq_false_iff, decide_eq_false_iff_not, List.cons.injEq, and_true] at h
        simp only [List.headD_cons] at h
        omega
    obtain ⟨hlow, hlocal, hlink⟩ := htests
    simp only [localBlocks6, ipv6Block, ipv6Value, Block.Holds, List.foldl_cons, List.foldl_nil, List.forall_mem_cons,
      List.not_mem_nil, false_implies, implies_true, and_true]
    refine ⟨?_, ?_, ?_, ?_⟩ <;> omega

/-- The address of the host, where it is one. -/
def hostIp : UrlHost → Option IpAddr
  | .domain _ => none
  | .ipv4 addr => some (.v4 addr)
  | .ipv6 addr => some (.v6 addr)

theorem isPublicIp_local {host : UrlHost} {ip : IpAddr} (hvalid : host.Valid) (hip : hostIp host = some ip)
    (h : isPublicIp ip = true) : ¬ HostLocal host := by
  rintro (⟨block, hblock, value, hvalue, hholds⟩ | ⟨block, hblock, hholds⟩)
  · cases host with
    | domain name => cases hip
    | ipv4 addr =>
      cases hip
      cases hvalue
      exact isPublicIpv4_local hvalid h block hblock hholds
    | ipv6 addr =>
      cases hip
      rcases mapped_or hvalid with ⟨hi, lo, rfl⟩ | hnot
      · obtain ⟨hmapped, hsome⟩ := mapped_holds hvalid
        cases hsome ▸ hvalue
        exact isPublicIpv4_local hmapped h block hblock hholds
      · rw [hostIpv4, if_neg hnot] at hvalue
        cases hvalue
  · cases host with
    | domain name => exact hholds
    | ipv4 addr => exact hholds
    | ipv6 addr =>
      cases hip
      exact isPublicIp_local6 hvalid h block hblock hholds

theorem isPublicIp_benchmarking {host : UrlHost} {ip : IpAddr} (hvalid : host.Valid) (hip : hostIp host = some ip)
    (h : HostIn benchmarking host) : isPublicIp ip = true := by
  obtain ⟨value, hvalue, hholds⟩ := h
  cases host with
  | domain name => cases hip
  | ipv4 addr =>
    cases hip
    cases hvalue
    exact isPublicIpv4_benchmarking hvalid hholds
  | ipv6 addr =>
    cases hip
    rcases mapped_or hvalid with ⟨hi, lo, rfl⟩ | hnot
    · obtain ⟨hmapped, hsome⟩ := mapped_holds hvalid
      cases hsome ▸ hvalue
      exact isPublicIpv4_benchmarking hmapped hholds
    · rw [hostIpv4, if_neg hnot] at hvalue
      cases hvalue

/-! ## `check_tarball_url` -/

/-- The host without the brackets of an IPv6 address. -/
def bareHost (host : Text) : Text := ((host.dropWhile (· = '[')).reverse.dropWhile (· = ']')).reverse

theorem bareHost_of_chars {t : Text} (h : ∀ c ∈ t, IpAddr.isAddrChar c = true) :
    bareHost t = t ∧ bareHost ('[' :: (t ++ [']'])) = t := by
  have hopen : ∀ rest : Text, rest.head? ≠ some '[' → rest.dropWhile (· = '[') = rest := by
    intro rest hrest
    cases rest with
    | nil => rfl
    | cons c rest => exact List.dropWhile_cons_of_neg (by simpa using hrest)
  have hclose : t.reverse.dropWhile (· = ']') = t.reverse := by
    cases hrev : t.reverse with
    | nil => rfl
    | cons c rest =>
      have hc : IpAddr.isAddrChar c = true := h c (List.mem_reverse.1 (by rw [hrev]; simp))
      refine List.dropWhile_cons_of_neg fun hbracket => ?_
      rw [of_decide_eq_true hbracket] at hc
      cases hc
  have hhead : ∀ rest : Text, (∀ c, rest.head? = some c → c ≠ '[') →
      (t ++ rest).dropWhile (· = '[') = t ++ rest := by
    intro rest hrest
    refine hopen _ fun hhead => ?_
    cases t with
    | nil => exact hrest '[' hhead rfl
    | cons c t =>
      have hc : IpAddr.isAddrChar c = true := h c (List.mem_cons_self ..)
      rw [Option.some.inj hhead] at hc
      cases hc
  constructor
  · have hself := hhead [] (by simp)
    rw [List.append_nil] at hself
    rw [bareHost, hself, hclose, List.reverse_reverse]
  · rw [bareHost, List.dropWhile_cons_of_pos rfl, hhead [']'] (by simp), List.reverse_append, List.reverse_singleton,
      List.singleton_append, List.dropWhile_cons_of_pos rfl, hclose, List.reverse_reverse]

/-- What the check reads of the host's text is the host's address. -/
theorem parse_bareHost {host : UrlHost} {ip : IpAddr} (hvalid : host.Valid) (hip : hostIp host = some ip) :
    IpAddr.parse (bareHost host.text) = some ip := by
  cases host with
  | domain name => cases hip
  | ipv4 addr =>
    cases hip
    have hparse := UrlHost.parse_ipv4 hvalid
    rw [UrlHost.text, (bareHost_of_chars (IpAddr.parse_chars hparse)).1, hparse]
  | ipv6 addr =>
    cases hip
    have hparse := UrlHost.parse_ipv6 hvalid
    rw [UrlHost.text, (bareHost_of_chars (IpAddr.parse_chars hparse)).2, hparse]

section
variable {parse : Text → Except String Url} {hostOf : Url → Option UrlHost} {t : Text}

/-- Globally routable, or a name that is. -/
def isPublicHost (bare : Text) : Bool :=
  match IpAddr.parse bare with
  | some ip => isPublicIp ip
  | none => isPublicDomain bare

/-- Whatever its host, an accepted URL has one, and keeps the rules of the scheme and of the credentials. -/
theorem checkTarballUrl_ok : checkTarballUrl parse t false = .ok () ↔ ∃ url text, parse t = .ok url ∧
    url.host = some text ∧ url.scheme = Url.https ∧ url.username = [] ∧ url.password = none ∧
      isPublicHost (bareHost text) = true := by
  have hname : ∀ text : Text, (match IpAddr.parse (bareHost text) with
      | some ip => bailIf (¬ isPublicIp ip)
          ("restore.tarballUrl host " ++ String.ofList text ++ " is not a public address")
      | none => bailIf (¬ isPublicDomain (bareHost text))
          ("restore.tarballUrl host " ++ String.ofList text ++ " is not a public name")) = .ok () ↔
      isPublicHost (bareHost text) = true := by
    intro text
    unfold isPublicHost
    split <;> simp
  unfold checkTarballUrl
  rw [bind_ok]
  constructor
  · rintro ⟨url, hparse, h⟩
    rw [check_bind_ok, check_bind_ok, bailIf_ok, bailIf_ok] at h
    obtain ⟨hscheme, hcredentials, h⟩ := h
    have hcredentials : url.username = [] ∧ url.password = none := by simpa [not_or] using hcredentials
    split at h
    case h_1 => cases h
    case h_2 text htext =>
      exact ⟨url, text, mapError_ok.1 hparse, htext, by simpa using hscheme, hcredentials.1, hcredentials.2,
        (hname text).1 h⟩
  · rintro ⟨url, text, hparse, htext, hscheme, husername, hpassword, hpublic⟩
    refine ⟨url, mapError_ok.2 hparse, ?_⟩
    rw [check_bind_ok, check_bind_ok, bailIf_ok, bailIf_ok, htext]
    exact ⟨by simp [hscheme], by simp [husername, hpassword], (hname text).2 hpublic⟩

/-- A URL whose host is an address in the benchmarking range, and that the other rules let pass. -/
def Benchmarked (parse : Text → Except String Url) (hostOf : Url → Option UrlHost) (t : Text) : Prop :=
  ∃ url host, parse t = .ok url ∧ hostOf url = some host ∧ HostIn benchmarking host ∧ url.scheme = Url.https ∧
    url.username = [] ∧ url.password = none

/-- The host is there, and is no address inside. -/
def PointsOutside (parse : Text → Except String Url) (hostOf : Url → Option UrlHost) (t : Text) : Prop :=
  ∃ url host, parse t = .ok url ∧ hostOf url = some host ∧ ¬ HostInside host

/-- An accepted URL does not point inside, unless it points into the benchmarking range: that one, as an IPv4 address
or mapped into IPv6, is accepted. -/
theorem tarball_hosts (hosts : Hosts parse hostOf) (t : Text) :
    (checkTarballUrl parse t false = .ok () → PointsOutside parse hostOf t) ↔ ¬ Benchmarked parse hostOf t := by
  constructor
  · rintro houtside ⟨url, host, hparse, hhost, hbench, hscheme, husername, hpassword⟩
    -- the host is an address, since it is in a block; that address passes
    have hvalid := hosts.valid t url hparse host hhost
    obtain ⟨ip, hip⟩ : ∃ ip, hostIp host = some ip := by
      obtain ⟨value, hvalue, -⟩ := hbench
      cases host with
      | domain name => cases hvalue
      | ipv4 addr => exact ⟨_, rfl⟩
      | ipv6 addr => exact ⟨_, rfl⟩
    have hpublic : isPublicHost (bareHost host.text) = true := by
      rw [isPublicHost, parse_bareHost hvalid hip]
      exact isPublicIp_benchmarking hvalid hip hbench
    have htext : url.host = some host.text := by rw [hosts.text t url hparse, hhost]; rfl
    obtain ⟨url', host', hparse', hhost', hnot⟩ :=
      houtside (checkTarballUrl_ok.2 ⟨url, _, hparse, htext, hscheme, husername, hpassword, hpublic⟩)
    cases hparse.symm.trans hparse'
    cases hhost.symm.trans hhost'
    exact hnot (.inr hbench)
  · intro hnot haccepted
    obtain ⟨url, text, hparse, htext, hscheme, husername, hpassword, hpublic⟩ := checkTarballUrl_ok.1 haccepted
    obtain ⟨host, hhost, rfl⟩ := Option.map_eq_some_iff.1 ((hosts.text t url hparse).symm.trans htext)
    refine ⟨url, host, hparse, hhost, ?_⟩
    rintro (hlocal | hbench)
    · have hvalid := hosts.valid t url hparse host hhost
      cases hip : hostIp host with
      | none =>
        cases host with
        | domain name =>
          obtain ⟨_, _, _, ⟨⟩, _⟩ | ⟨_, _, ⟨⟩⟩ := hlocal
        | ipv4 addr => cases hip
        | ipv6 addr => cases hip
      | some ip =>
        rw [isPublicHost, parse_bareHost hvalid hip] at hpublic
        exact isPublicIp_local hvalid hip hpublic hlocal
    · exact hnot ⟨url, host, hparse, hhost, hbench, hscheme, husername, hpassword⟩

end

/-! ## An archive on 198.18.0.1 -/

def benchUrl : Text := "https://198.18.0.1/project.tar".toList

def benchHost : UrlHost := .ipv4 ⟨198, 18, 0, 1⟩

def benchParsed : Url :=
  { scheme := Url.https, username := [], password := none, host := some "198.18.0.1".toList, port := none,
    path := "/project.tar".toList, query := none, fragment := none }

/-- Reads this URL only. -/
def benchParse (t : Text) : Except String Url :=
  if t = benchUrl then .ok benchParsed else .error "relative URL without a base"

def benchHostOf (url : Url) : Option UrlHost := if url = benchParsed then some benchHost else none

theorem benchHosts : Hosts benchParse benchHostOf := by
  have hread : ∀ t url, benchParse t = .ok url → url = benchParsed := by
    intro t url h
    unfold benchParse at h
    split at h
    · exact (Except.ok.inj h).symm
    · cases h
  refine ⟨fun t url h => ?_, fun t url h host hhost => ?_⟩
  · rw [hread t url h]
    decide
  · rw [hread t url h, benchHostOf, if_pos rfl] at hhost
    cases hhost
    show 198 < 256 ∧ 18 < 256 ∧ 0 < 256 ∧ 1 < 256
    omega

theorem benchmarked : Benchmarked benchParse benchHostOf benchUrl :=
  ⟨benchParsed, benchHost, if_pos rfl, if_pos rfl, ⟨_, rfl, by decide⟩, rfl, rfl, rfl⟩

theorem tarball_hosts_benchmarking :
    ¬ (checkTarballUrl benchParse benchUrl false = .ok () → PointsOutside benchParse benchHostOf benchUrl) :=
  fun h => (tarball_hosts benchHosts benchUrl).1 h benchmarked

/-- The archive is accepted, its host in a range that the comment keeps out. -/
theorem benchmarking_accepted : Hosts benchParse benchHostOf ∧ checkTarballUrl benchParse benchUrl false = .ok () ∧
    ¬ PointsOutside benchParse benchHostOf benchUrl := by
  refine ⟨benchHosts, by decide, ?_⟩
  rintro ⟨url, host, hparse, hhost, hnot⟩
  rw [benchParse, if_pos rfl] at hparse
  cases hparse
  rw [benchHostOf, if_pos rfl] at hhost
  cases hhost
  exact hnot (.inr ⟨_, rfl, by decide⟩)

end Zedspaces.Supervisor
