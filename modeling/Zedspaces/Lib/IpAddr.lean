/-
IP addresses and their textual form, read as the standard library reads it: an IPv4 address of four decimal octets,
or an IPv6 address of eight groups of which one run may be elided and the last two may be written as an IPv4 address.
What is read is written in hexadecimal digits, dots and colons (`IpAddr.parse_chars`).
-/
import Zedspaces.Lib.Text

namespace Zedspaces.Lib

structure Ipv4Addr where
  a : Nat
  b : Nat
  c : Nat
  d : Nat
  deriving DecidableEq, Repr

structure Ipv6Addr where
  segments : List Nat
  deriving DecidableEq, Repr

inductive IpAddr where
  | v4 (addr : Ipv4Addr)
  | v6 (addr : Ipv6Addr)
  deriving DecidableEq, Repr

namespace IpAddr

/-! ## Reading -/

def digitValue (radix : Nat) (c : Char) : Option Nat :=
  let n := if '0' ≤ c ∧ c ≤ '9' then some (c.toNat - 48)
    else if 'a' ≤ c ∧ c ≤ 'f' then some (c.toNat - 87)
    else if 'A' ≤ c ∧ c ≤ 'F' then some (c.toNat - 55)
    else none
  n.filter (· < radix)

/-- A reader gives what it read and the rest of the text. -/
abbrev Reader (α : Type) := Text → Option (α × Text)

/-- All the digits that follow: at most `maxDigits`, of a number up to `bound`. -/
def readNumber (radix maxDigits bound : Nat) (allowZeroPrefix : Bool) : Reader Nat := fun t =>
  let digits := t.takeWhile fun c => (digitValue radix c).isSome
  let n := (digits.filterMap (digitValue radix)).foldl (fun n d => n * radix + d) 0
  if digits = [] ∨ maxDigits < digits.length ∨ bound < n then none
  else if !allowZeroPrefix ∧ digits.head? = some '0' ∧ 1 < digits.length then none
  else some (n, t.drop digits.length)

/-- The `i`-th of a sequence: all but the first stand behind a separator. -/
def readSeparator {α : Type} (sep : Char) (i : Nat) (read : Reader α) : Reader α := fun t =>
  if i = 0 then read t
  else match t with
    | c :: t => if c = sep then read t else none
    | [] => none

def readOctet (i : Nat) : Reader Nat := readSeparator '.' i (readNumber 10 3 255 false)

def readIpv4 : Reader Ipv4Addr := fun t => do
  let (a, t) ← readOctet 0 t
  let (b, t) ← readOctet 1 t
  let (c, t) ← readOctet 2 t
  let (d, t) ← readOctet 3 t
  some (⟨a, b, c, d⟩, t)

/-- An embedded IPv4 address needs two groups. -/
def readEmbedded (left i : Nat) : Reader Ipv4Addr := fun t =>
  if 2 ≤ left then readSeparator ':' i readIpv4 t else none

/-- Up to `left` groups, the `i`-th first; whether an IPv4 address ended them. -/
def readGroups : Nat → Nat → Text → List Nat × Bool × Text
  | 0, _, t => ([], false, t)
  | left + 1, i, t =>
    match readEmbedded (left + 1) i t with
    | some (addr, t) => ([addr.a * 256 + addr.b, addr.c * 256 + addr.d], true, t)
    | none => match readSeparator ':' i (readNumber 16 4 65535 true) t with
      | some (group, t) =>
        let (groups, embedded, t) := readGroups left (i + 1) t
        (group :: groups, embedded, t)
      | none => ([], false, t)

def readIpv6 : Reader Ipv6Addr := fun t =>
  let (head, embedded, t) := readGroups 8 0 t
  if head.length = 8 then some (⟨head⟩, t)
  else if embedded then none
  else match t with
    | ':' :: ':' :: t =>
      let (tail, _, t) := readGroups (8 - (head.length + 1)) 0 t
      some (⟨head ++ List.replicate (8 - head.length - tail.length) 0 ++ tail⟩, t)
    | _ => none

def readIpAddr : Reader IpAddr := fun t =>
  match readIpv4 t with
  | some (addr, t) => some (.v4 addr, t)
  | none => (readIpv6 t).map fun p => (.v6 p.1, p.2)

/-- The address the whole text is. -/
def parse (t : Text) : Option IpAddr :=
  match readIpAddr t with
  | some (ip, []) => some ip
  | _ => none

/-! ## What is read -/

def isAddrChar (c : Char) : Bool := (digitValue 16 c).isSome || c = '.' || c = ':'

/-- The text between two points of a reading is written in address characters. -/
def Consumed (t rest : Text) : Prop := ∃ w, t = w ++ rest ∧ ∀ c ∈ w, isAddrChar c = true

theorem Consumed.refl (t : Text) : Consumed t t := ⟨[], rfl, by rintro _ ⟨⟩⟩

theorem Consumed.trans {t u v : Text} (h : Consumed t u) (h' : Consumed u v) : Consumed t v := by
  obtain ⟨w, rfl, hw⟩ := h
  obtain ⟨w', rfl, hw'⟩ := h'
  refine ⟨w ++ w', (List.append_assoc ..).symm, fun c hc => ?_⟩
  rcases List.mem_append.1 hc with hc | hc
  · exact hw c hc
  · exact hw' c hc

theorem Consumed.cons {c : Char} {t rest : Text} (hc : isAddrChar c = true) (h : Consumed t rest) :
    Consumed (c :: t) rest :=
  Consumed.trans ⟨[c], rfl, fun _ hd => (List.mem_singleton.1 hd).symm ▸ hc⟩ h

/-- Every reading of the reader consumes address characters. -/
def Reads {α : Type} (read : Reader α) : Prop := ∀ t x rest, read t = some (x, rest) → Consumed t rest

theorem digitValue_le {radix : Nat} (hr : radix ≤ 16) {c : Char} (h : (digitValue radix c).isSome = true) :
    isAddrChar c = true := by
  obtain ⟨n, hn⟩ := Option.isSome_iff_exists.1 h
  obtain ⟨hn, hlt⟩ := Option.filter_eq_some_iff.1 hn
  have hlt : n < radix := of_decide_eq_true hlt
  have hsome : digitValue 16 c = some n :=
    Option.filter_eq_some_iff.2 ⟨hn, decide_eq_true (Nat.lt_of_lt_of_le hlt hr)⟩
  simp [isAddrChar, hsome]

theorem reads_number {radix maxDigits bound : Nat} {zero : Bool} (hr : radix ≤ 16) :
    Reads (readNumber radix maxDigits bound zero) := by
  intro t n rest h
  unfold readNumber at h
  simp only at h
  split at h
  · cases h
  · split at h
    · cases h
    · obtain ⟨-, rfl⟩ := Prod.mk.inj (Option.some.inj h)
      refine ⟨t.takeWhile fun c => (digitValue radix c).isSome, ?_, fun c hc => ?_⟩
      · exact (List.prefix_iff_eq_append.1 (List.takeWhile_prefix _)).symm
      · exact digitValue_le hr (List.all_eq_true.1 List.all_takeWhile c hc)

theorem Reads.separator {α : Type} {read : Reader α} (h : Reads read) {sep : Char} (hsep : isAddrChar sep = true)
    (i : Nat) : Reads (readSeparator sep i read) := by
  intro t x rest hx
  unfold readSeparator at hx
  split at hx
  · exact h _ _ _ hx
  · split at hx
    · split at hx
      case isTrue heq => exact (h _ _ _ hx).cons (heq ▸ hsep)
      case isFalse => cases hx
    · cases hx

theorem reads_octet (i : Nat) : Reads (readOctet i) := (reads_number (by omega)).separator rfl i

theorem reads_ipv4 : Reads readIpv4 := by
  intro t addr rest h
  obtain ⟨⟨a, t₁⟩, ha, h⟩ := Option.bind_eq_some_iff.1 h
  obtain ⟨⟨b, t₂⟩, hb, h⟩ := Option.bind_eq_some_iff.1 h
  obtain ⟨⟨c, t₃⟩, hc, h⟩ := Option.bind_eq_some_iff.1 h
  obtain ⟨⟨d, t₄⟩, hd, h⟩ := Option.bind_eq_some_iff.1 h
  obtain ⟨-, rfl⟩ := Prod.mk.inj (Option.some.inj h)
  have htail : Consumed t₂ t₄ := (reads_octet 2 _ _ _ hc).trans (reads_octet 3 _ _ _ hd)
  exact (reads_octet 0 _ _ _ ha).trans ((reads_octet 1 _ _ _ hb).trans htail)

theorem consumed_groups (left i : Nat) (t : Text) : Consumed t (readGroups left i t).2.2 := by
  induction left generalizing i t with
  | zero => exact Consumed.refl t
  | succ left ih =>
    unfold readGroups
    split
    case h_1 addr rest hv4 =>
      unfold readEmbedded at hv4
      split at hv4
      · exact reads_ipv4.separator rfl i _ _ _ hv4
      · cases hv4
    case h_2 =>
      split
      case h_1 group rest hgroup =>
        have hnumber : Consumed t rest := (reads_number (by omega)).separator rfl i _ _ _ hgroup
        exact hnumber.trans (ih (i + 1) rest)
      case h_2 => exact Consumed.refl t

theorem reads_ipv6 : Reads readIpv6 := by
  intro t addr rest h
  have hhead := consumed_groups 8 0 t
  unfold readIpv6 at h
  generalize readGroups 8 0 t = groups at h hhead
  obtain ⟨head, embedded, t₁⟩ := groups
  simp only at h hhead
  split at h
  · obtain ⟨-, rfl⟩ := Prod.mk.inj (Option.some.inj h)
    exact hhead
  · split at h
    · cases h
    · split at h
      case h_1 t₂ =>
        obtain ⟨-, rfl⟩ := Prod.mk.inj (Option.some.inj h)
        exact hhead.trans (((consumed_groups _ 0 t₂).cons rfl).cons rfl)
      case h_2 => cases h

/-- An address is written in hexadecimal digits, dots and colons. -/
theorem parse_chars {t : Text} {ip : IpAddr} (h : parse t = some ip) : ∀ c ∈ t, isAddrChar c = true := by
  have hread : Reads readIpAddr := by
    intro t ip rest h
    unfold readIpAddr at h
    split at h
    case h_1 addr t₁ hv4 =>
      obtain ⟨-, rfl⟩ := Prod.mk.inj (Option.some.inj h)
      exact reads_ipv4 _ _ _ hv4
    case h_2 =>
      obtain ⟨⟨addr, t₁⟩, hv6, hp⟩ := Option.map_eq_some_iff.1 h
      obtain ⟨-, rfl⟩ := Prod.mk.inj hp
      exact reads_ipv6 _ _ _ hv6
  unfold parse at h
  split at h
  case h_1 ip' hip =>
    obtain ⟨w, hw, hchars⟩ := hread _ _ _ hip
    rw [hw, List.append_nil]
    exact hchars
  case h_2 => cases h

example : parse "::ffff:127.0.0.1".toList = some (.v6 ⟨[0, 0, 0, 0, 0, 65535, 32512, 1]⟩) := by decide

end IpAddr

end Zedspaces.Lib
