/-
The loopback ports debug sessions hold (`PrivatePort`): a handle counts its port in `PRIVATE_PORTS` when it is made and
takes the count back when it is dropped. Both happen under the map's lock, so the threads' handles are made and dropped
one after the other, in any order; the count of a port is the number of its live handles in every state
(`private_ports`). A handle takes memory, so that a count stays below `usize::MAX`.
-/
import Zedspaces.Lib.RefCounts
import Zedspaces.Lib.System
import Zedspaces.Supervisor.PortAuth
import Mathlib.Data.List.Perm.Basic

namespace Zedspaces.Supervisor

open Lib Lib.RefCounts Std

/-- `ports` is `PRIVATE_PORTS`, nothing until it is first used; `handles` are the live ones, each under a number. -/
structure PrivatePorts where
  ports : Option (ExtTreeMap Port Nat compare)
  handles : List (Nat × Port)

inductive PrivatePortStep where
  | new (handle : Nat) (port : Port)
  | drop (handle : Nat)
  deriving DecidableEq, Repr

namespace PrivatePorts

def start : PrivatePorts := ⟨none, []⟩

/-- `is_private_port` -/
def isPrivatePort (st : PrivatePorts) (port : Port) : Bool := st.ports.any fun ports => ports.contains port

/-- `PrivatePort::new` -/
def new (st : PrivatePorts) (handle : Nat) (port : Port) : PrivatePorts :=
  ⟨some (retain (st.ports.getD ∅) port), (handle, port) :: st.handles⟩

/-- `PrivatePort::drop`; no result where it panics. -/
def drop (st : PrivatePorts) (handle : Nat) (port : Port) : Option PrivatePorts := do
  let ports ← st.ports
  let ports ← release ports port
  some ⟨some ports, st.handles.erase (handle, port)⟩

/-- A handle is dropped by its owner, once. -/
def step (st : PrivatePorts) : PrivatePortStep → Option PrivatePorts
  | .new handle port => if (st.handles.lookup handle).isSome then none else some (st.new handle port)
  | .drop handle => (st.handles.lookup handle).bind fun port => st.drop handle port

def system : System PrivatePorts PrivatePortStep where
  init st := st = start
  step := step

/-- The ports of the live handles, one for each. -/
def livePorts (st : PrivatePorts) : List Port := st.handles.map Prod.snd

/-- The stored count of a port. -/
def storedCount (st : PrivatePorts) (port : Port) : Nat := (st.ports.bind fun ports => ports[port]?).getD 0

/-- The map counts the live handles, and each has its own number. -/
structure Counted (st : PrivatePorts) : Prop where
  counts : Counts (st.ports.getD ∅) st.livePorts
  handles : (st.handles.map Prod.fst).Nodup

variable {st st' : PrivatePorts} {handle : Nat} {port : Port}

theorem counted_start : Counted start := ⟨counts_empty, List.nodup_nil⟩

theorem Counted.new (h : st.Counted) (hnew : st.handles.lookup handle = none) (port : Port) :
    (st.new handle port).Counted := by
  refine ⟨h.counts.retained port, List.nodup_cons.2 ⟨fun hmem => ?_, h.handles⟩⟩
  obtain ⟨other, hother, heq⟩ := List.mem_map.1 hmem
  have hne := List.lookup_eq_none_iff.1 hnew other hother
  rw [heq, bne_self_eq_false] at hne
  cases hne

/-- A live handle's drop goes through. -/
theorem Counted.drop (h : st.Counted) (hlive : (handle, port) ∈ st.handles) :
    ∃ st', st.drop handle port = some st' ∧ st'.Counted ∧ st'.handles = st.handles.erase (handle, port) := by
  have hmem : port ∈ st.livePorts := List.mem_map.2 ⟨_, hlive, rfl⟩
  obtain ⟨ports, hports⟩ : ∃ ports, st.ports = some ports := by
    cases hports : st.ports with
    | some ports => exact ⟨ports, rfl⟩
    | none =>
      -- the map was made with the first handle
      have hnone := h.counts port
      rw [hports, if_pos hmem] at hnone
      cases hnone
  have hcounts : Counts ports st.livePorts := by
    have := h.counts
    rwa [hports] at this
  obtain ⟨ports', hrelease, hcounts'⟩ := hcounts.released hmem
  have hperm : (st.livePorts.erase port).Perm ((st.handles.erase (handle, port)).map Prod.snd) := by
    refine (List.perm_cons port).1 ((List.perm_cons_erase hmem).symm.trans ?_)
    exact (List.perm_cons_erase hlive).map Prod.snd
  refine ⟨⟨some ports', st.handles.erase (handle, port)⟩, ?_, ⟨fun k => ?_, ?_⟩, rfl⟩
  · rw [PrivatePorts.drop, hports]
    show (release ports port).bind _ = _
    rw [hrelease]
    rfl
  · show ports'[k]? = _
    rw [hcounts' k]
    simp only [hperm.mem_iff, hperm.count_eq]
    rfl
  · exact h.handles.sublist (List.erase_sublist.map Prod.fst)

theorem mem_of_lookup (h : st.handles.lookup handle = some port) : (handle, port) ∈ st.handles := by
  obtain ⟨before, after, heq, -⟩ := List.lookup_eq_some_iff.1 h
  rw [heq]
  exact List.mem_append_right before (List.mem_cons_self ..)

/-- A handle is found under its number. -/
theorem Counted.lookup (h : st.Counted) (hlive : (handle, port) ∈ st.handles) :
    st.handles.lookup handle = some port := by
  cases hlookup : st.handles.lookup handle with
  | none =>
    have hne := List.lookup_eq_none_iff.1 hlookup _ hlive
    rw [bne_self_eq_false] at hne
    cases hne
  | some other =>
    have hother := mem_of_lookup hlookup
    have heq : (handle, port) = (handle, other) := List.inj_on_of_nodup_map h.handles hlive hother rfl
    rw [(Prod.mk.inj heq).2]

theorem Counted.step {e : PrivatePortStep} (h : st.Counted) (hstep : st.step e = some st') : st'.Counted := by
  cases e with
  | new handle port =>
    simp only [PrivatePorts.step] at hstep
    split at hstep
    · cases hstep
    · next hnew =>
      cases hstep
      exact h.new (Option.not_isSome_iff_eq_none.1 hnew) port
  | drop handle =>
    obtain ⟨port, hlookup, hdrop⟩ := Option.bind_eq_some_iff.1 hstep
    obtain ⟨st₁, hst₁, hcounted, -⟩ := h.drop (mem_of_lookup hlookup)
    cases hst₁.symm.trans hdrop
    exact hcounted

theorem counted_of_reach (h : system.Reach System.free st) : st.Counted :=
  h.invariant (fun s hs => by cases hs; exact counted_start) fun _ _ _ _ hcounted _ hstep => hcounted.step hstep

theorem Counted.storedCount (h : st.Counted) (port : Port) : st.storedCount port = st.livePorts.count port := by
  have hget := h.counts.getD port
  rw [ExtTreeMap.getD_eq_getD_getElem?] at hget
  rw [← hget, PrivatePorts.storedCount]
  cases st.ports with
  | none =>
    show 0 = (∅ : ExtTreeMap Port Nat compare)[port]?.getD 0
    rw [ExtTreeMap.getElem?_empty]
    rfl
  | some ports => rfl

theorem Counted.isPrivatePort (h : st.Counted) (port : Port) : st.isPrivatePort port = true ↔ port ∈ st.livePorts := by
  rw [← h.counts.contains_iff port, PrivatePorts.isPrivatePort]
  cases st.ports with
  | none =>
    show false = true ↔ (∅ : ExtTreeMap Port Nat compare).contains port = true
    rw [ExtTreeMap.contains_empty]
  | some ports => rfl

theorem mem_livePorts : port ∈ st.livePorts ↔ ∃ handle, (handle, port) ∈ st.handles := by
  simp [livePorts]

/-- The map answers `ports::is_infra_port` as the ports of the live handles would. -/
theorem isInfraPort_livePorts (h : st.Counted) (port : Port) :
    isInfraPort st.livePorts port = (decide (port ∈ infraPorts) || st.isPrivatePort port) := by
  rw [isInfraPort, Bool.eq_iff_iff, Bool.or_eq_true, Bool.or_eq_true, h.isPrivatePort, decide_eq_true_iff,
    decide_eq_true_iff]

end PrivatePorts

open PrivatePorts

/-- In every state the stored count of a port is the number of its live handles, a live handle's drop finds a count to
take from and leaves one less, and the ports that are private are those of the live handles. -/
theorem private_ports {st : PrivatePorts} (h : system.Reach System.free st) :
    (∀ port, st.storedCount port = st.handles.countP fun handle => handle.2 = port) ∧
      (∀ handle port, (handle, port) ∈ st.handles → ∃ st', st.step (.drop handle) = some st' ∧
        0 < st.storedCount port ∧ st'.storedCount port = st.storedCount port - 1) ∧
      (∀ port, st.isPrivatePort port = true ↔ ∃ handle, (handle, port) ∈ st.handles) ∧
      ∀ port, isInfraPort st.livePorts port = (decide (port ∈ infraPorts) || st.isPrivatePort port) := by
  have hcounted := counted_of_reach h
  refine ⟨fun port => ?_, fun handle port hlive => ?_, fun port => ?_, isInfraPort_livePorts hcounted⟩
  · rw [hcounted.storedCount, List.count, livePorts, List.countP_map]
    rfl
  · obtain ⟨st', hdrop, hcounted', hhandles⟩ := hcounted.drop hlive
    have hmem : port ∈ st.livePorts := mem_livePorts.2 ⟨handle, hlive⟩
    have hperm : st.livePorts.Perm (port :: st'.livePorts) := by
      rw [livePorts, livePorts, hhandles]
      exact (List.perm_cons_erase hlive).map Prod.snd
    refine ⟨st', ?_, ?_, ?_⟩
    · rw [step, hcounted.lookup hlive]
      exact hdrop
    · rw [hcounted.storedCount]
      exact List.count_pos_iff.2 hmem
    · rw [hcounted.storedCount, hcounted'.storedCount, hperm.count_eq, List.count_cons_self]
      rfl
  · rw [hcounted.isPrivatePort, mem_livePorts]

/-- Two handles for one port and one for another; the first is dropped, and its port is private still. -/
theorem private_ports_overlapping : ∃ st : PrivatePorts, st.handles = [(2, 6000), (1, 5000)] ∧
    ∀ port, st.isPrivatePort port = true ↔ ∃ handle, (handle, port) ∈ st.handles := by
  have hrun : system.exec start [.new 0 5000, .new 1 5000, .new 2 6000, .drop 0] = some _ := rfl
  exact ⟨_, rfl, (private_ports (System.reach_of_exec rfl hrun)).2.2.1⟩

end Zedspaces.Supervisor
