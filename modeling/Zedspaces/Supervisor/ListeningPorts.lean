/-
The listening sockets by port (`ports.rs`). `union_by_port` folds the sockets of the two kernel tables into one entry a
port; an entry says of the sockets of its port what does not depend on their order (`unionByPort_spec`), but for the
socket its inode and uid are taken from.
-/
import Zedspaces.Lib.Gather
import Zedspaces.Supervisor.Forwards
import Mathlib.Data.List.Perm.Basic

namespace Zedspaces.Supervisor

open Lib Lib.Maps Std

/-- One LISTEN socket as read from `/proc/net/tcp` or `tcp6`. -/
structure ListenSocket where
  port : Port
  v4 : Bool
  v6 : Bool
  loopbackOnly : Bool
  uid : Nat
  inode : Nat
  deriving DecidableEq, Repr

/-- What a further socket of its port makes of an entry. -/
def ListenSocket.merge (existing socket : ListenSocket) : ListenSocket :=
  { existing with
    v4 := existing.v4 || socket.v4
    v6 := existing.v6 || socket.v6
    loopbackOnly := existing.loopbackOnly && socket.loopbackOnly
    inode := if existing.inode = 0 then socket.inode else existing.inode
    uid := if existing.inode = 0 then socket.uid else existing.uid }

/-- `union_by_port` -/
def unionByPort (sockets : List ListenSocket) : ExtTreeMap Port ListenSocket compare :=
  gather ListenSocket.port id ListenSocket.merge sockets ∅

/-- `v4`, `v6` and `loopback_only`. -/
def ListenSocket.flags (socket : ListenSocket) : Bool × Bool × Bool := (socket.v4, socket.v6, socket.loopbackOnly)

section
variable {socket : ListenSocket} {sockets : List ListenSocket} {port : Port}

/-! ## The entry of a port -/

theorem foldl_merge_port : (sockets.foldl ListenSocket.merge socket).port = socket.port := by
  induction sockets generalizing socket with
  | nil => rfl
  | cons other sockets ih => exact ih

theorem foldl_merge_flags : (sockets.foldl ListenSocket.merge socket).flags =
    ((socket :: sockets).any ListenSocket.v4, (socket :: sockets).any ListenSocket.v6,
      (socket :: sockets).all ListenSocket.loopbackOnly) := by
  induction sockets generalizing socket with
  | nil => simp [ListenSocket.flags]
  | cons other sockets ih =>
    rw [List.foldl_cons, ih]
    simp [ListenSocket.merge, Bool.or_assoc, Bool.and_assoc]

/-- The inode and the uid are those of one of the sockets, one with an inode if there is any. -/
theorem foldl_merge_owner : ∃ owner ∈ socket :: sockets,
    (sockets.foldl ListenSocket.merge socket).inode = owner.inode ∧
      (sockets.foldl ListenSocket.merge socket).uid = owner.uid ∧
      (owner.inode = 0 → ∀ other ∈ socket :: sockets, other.inode = 0) := by
  induction sockets generalizing socket with
  | nil => exact ⟨socket, by simp, rfl, rfl, by simp⟩
  | cons next sockets ih =>
    obtain ⟨owner, howner, hinode, huid, hzero⟩ := @ih (socket.merge next)
    rw [List.foldl_cons, hinode, huid]
    rcases List.mem_cons.1 howner with rfl | hmem
    · by_cases h : socket.inode = 0
      · -- the entry has the inode of the next socket
        refine ⟨next, by simp, if_pos h, if_pos h, fun hnext => ?_⟩
        have hothers := hzero (by simp [ListenSocket.merge, h, hnext])
        intro other hother
        rcases List.mem_cons.1 hother with rfl | hother
        · exact h
        · rcases List.mem_cons.1 hother with rfl | hother
          · exact hnext
          · exact hothers other (List.mem_cons_of_mem _ hother)
      · exact ⟨socket, by simp, if_neg h, if_neg h, fun hsocket => absurd hsocket h⟩
    · refine ⟨owner, by simp [hmem], rfl, rfl, fun howner => ?_⟩
      have hothers := hzero howner
      have hmerged : (socket.merge next).inode = 0 := hothers _ (List.mem_cons_self ..)
      have hsocket : socket.inode = 0 := by
        by_contra h
        exact h ((if_neg h).symm.trans hmerged)
      have hnext : next.inode = 0 := (if_pos hsocket).symm.trans hmerged
      intro other hother
      rcases List.mem_cons.1 hother with rfl | hother
      · exact hsocket
      · rcases List.mem_cons.1 hother with rfl | hother
        · exact hnext
        · exact hothers other (List.mem_cons_of_mem _ hother)

/-- The entry of a port is the first socket of the port with the others merged into it. -/
theorem getElem?_unionByPort_of_cons {others : List ListenSocket}
    (h : (sockets.filter fun socket => socket.port = port) = socket :: others) :
    (unionByPort sockets)[port]? = some (others.foldl ListenSocket.merge socket) := by
  rw [unionByPort, getElem?_gather, h, ExtTreeMap.getElem?_empty]
  exact foldl_gathered socket others

theorem getElem?_unionByPort_of_nil (h : (sockets.filter fun socket => socket.port = port) = []) :
    (unionByPort sockets)[port]? = none := by
  rw [unionByPort, getElem?_gather, h, ExtTreeMap.getElem?_empty, List.foldl_nil]

/-- What an entry says of the sockets of its port. -/
structure IsUnion (sockets : List ListenSocket) (p : Port) (entry : ListenSocket) : Prop where
  port : entry.port = p
  v4 : entry.v4 = true ↔ ∃ socket ∈ sockets, socket.port = p ∧ socket.v4 = true
  v6 : entry.v6 = true ↔ ∃ socket ∈ sockets, socket.port = p ∧ socket.v6 = true
  loopbackOnly : entry.loopbackOnly = true ↔ ∀ socket ∈ sockets, socket.port = p → socket.loopbackOnly = true
  inode : ∃ socket ∈ sockets, socket.port = p ∧ socket.inode = entry.inode ∧ socket.uid = entry.uid
  nonzero : entry.inode = 0 → ∀ socket ∈ sockets, socket.port = p → socket.inode = 0

/-- A port has an entry exactly if it has a socket, and the entry is the union of its sockets. -/
theorem unionByPort_spec (sockets : List ListenSocket) (port : Port) :
    ((unionByPort sockets)[port]? = none ↔ ∀ socket ∈ sockets, socket.port ≠ port) ∧
      ∀ entry, (unionByPort sockets)[port]? = some entry → IsUnion sockets port entry := by
  have hmem : ∀ socket, socket ∈ sockets.filter (fun socket => socket.port = port) ↔
      socket ∈ sockets ∧ socket.port = port := by simp
  rcases hfilter : sockets.filter (fun socket => socket.port = port) with _ | ⟨socket, others⟩
  · rw [getElem?_unionByPort_of_nil hfilter]
    refine ⟨iff_of_true rfl fun other hother hport => ?_, by rintro _ ⟨⟩⟩
    have hsome := (hmem other).2 ⟨hother, hport⟩
    rw [hfilter] at hsome
    cases hsome
  · rw [hfilter] at hmem
    have hfirst := (hmem socket).1 (List.mem_cons_self ..)
    rw [getElem?_unionByPort_of_cons hfilter]
    refine ⟨iff_of_false (by simp) fun hnone => hnone socket hfirst.1 hfirst.2, ?_⟩
    rintro entry ⟨⟩
    have hflags := @foldl_merge_flags socket others
    simp only [ListenSocket.flags, Prod.mk.injEq] at hflags
    obtain ⟨hv4, hv6, hloopback⟩ := hflags
    obtain ⟨owner, howner, hinode, huid, hzero⟩ := @foldl_merge_owner socket others
    obtain ⟨hsocket, hport⟩ := (hmem owner).1 howner
    refine ⟨foldl_merge_port.trans hfirst.2, ?_, ?_, ?_, ⟨owner, hsocket, hport, hinode.symm, huid.symm⟩, ?_⟩
    · rw [hv4, List.any_eq_true]
      simp only [hmem, and_assoc]
    · rw [hv6, List.any_eq_true]
      simp only [hmem, and_assoc]
    · rw [hloopback, List.all_eq_true]
      simp only [hmem, and_imp]
    · intro hentry other hother hotherPort
      exact hzero (hinode ▸ hentry) other ((hmem other).2 ⟨hother, hotherPort⟩)

/-- The flags of an entry are a matter of which sockets its port has. -/
theorem IsUnion.flags_eq {sockets' : List ListenSocket} {entry entry' : ListenSocket} (h : IsUnion sockets port entry)
    (h' : IsUnion sockets' port entry') (hmem : ∀ socket, socket ∈ sockets ↔ socket ∈ sockets') :
    entry.flags = entry'.flags := by
  have hv4 : entry.v4 = entry'.v4 := by
    rw [Bool.eq_iff_iff, h.v4, h'.v4]
    simp only [hmem]
  have hv6 : entry.v6 = entry'.v6 := by
    rw [Bool.eq_iff_iff, h.v6, h'.v6]
    simp only [hmem]
  have hloopback : entry.loopbackOnly = entry'.loopbackOnly := by
    rw [Bool.eq_iff_iff, h.loopbackOnly, h'.loopbackOnly]
    simp only [hmem]
  rw [ListenSocket.flags, ListenSocket.flags, hv4, hv6, hloopback]

end

/-- `union_by_port` has one entry for each port there is a socket of, which is the union of the port's sockets; the ports
and the flags do not depend on the order of the sockets. -/
theorem union_by_port (sockets : List ListenSocket) :
    (((unionByPort sockets).toList.map fun entry => entry.2.port).Nodup ∧
        ∀ port, port ∈ (unionByPort sockets).toList.map (fun entry => entry.2.port) ↔
          ∃ socket ∈ sockets, socket.port = port) ∧
      (∀ port entry, (unionByPort sockets)[port]? = some entry → IsUnion sockets port entry) ∧
      ∀ sockets' : List ListenSocket, sockets.Perm sockets' → ∀ port : Port,
        (unionByPort sockets)[port]?.map ListenSocket.flags = (unionByPort sockets')[port]?.map ListenSocket.flags := by
  have hunion : ∀ port entry, (unionByPort sockets)[port]? = some entry → IsUnion sockets port entry :=
    fun port => (unionByPort_spec sockets port).2
  have hkeys : ((unionByPort sockets).toList.map fun entry => entry.2.port) = (unionByPort sockets).toList.map Prod.fst := by
    refine List.map_congr_left fun entry hentry => ?_
    exact (hunion entry.1 entry.2 (ExtTreeMap.mem_toList_iff_getElem?_eq_some.1 hentry)).port
  refine ⟨⟨hkeys ▸ nodup_keys, fun port => ?_⟩, hunion, fun sockets' hperm port => ?_⟩
  · rw [hkeys]
    have hnone := (unionByPort_spec sockets port).1
    cases hentry : (unionByPort sockets)[port]? with
    | none =>
      have hno := hnone.1 hentry
      refine iff_of_false (fun hmem => ?_) fun ⟨socket, hsocket, hport⟩ => hno socket hsocket hport
      obtain ⟨entry, hlisted, rfl⟩ := List.mem_map.1 hmem
      rw [ExtTreeMap.mem_toList_iff_getElem?_eq_some.1 hlisted] at hentry
      cases hentry
    | some entry =>
      obtain ⟨socket, hsocket, hport, -, -⟩ := (hunion port entry hentry).inode
      exact iff_of_true (List.mem_map.2 ⟨(port, entry), ExtTreeMap.mem_toList_iff_getElem?_eq_some.2 hentry, rfl⟩)
        ⟨socket, hsocket, hport⟩
  · obtain ⟨hnone, hsome⟩ := unionByPort_spec sockets port
    obtain ⟨hnone', hsome'⟩ := unionByPort_spec sockets' port
    have hsame : (unionByPort sockets)[port]? = none ↔ (unionByPort sockets')[port]? = none := by
      rw [hnone, hnone']
      simp only [hperm.mem_iff]
    cases hentry : (unionByPort sockets)[port]? with
    | none => rw [hsame.1 hentry]
    | some entry =>
      cases hentry' : (unionByPort sockets')[port]? with
      | none =>
        rw [hsame.2 hentry'] at hentry
        cases hentry
      | some entry' =>
        rw [Option.map_some, Option.map_some, (hsome entry hentry).flags_eq (hsome' entry' hentry') fun _ => hperm.mem_iff]

end Zedspaces.Supervisor
