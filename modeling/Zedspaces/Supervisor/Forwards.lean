/-
The supervisor's copy of the forward list (`state.rs`): the forwards by port, and the port bound to
each proxy slot. Each operation is its locked section, which says what the table becomes and whether the
change counter is bumped after the lock is released, followed by that bump.
-/
import Zedspaces.Lib.Maps

namespace Zedspaces.Supervisor

open Std Lib

abbrev Port := Nat

abbrev Slot := Nat

/-- `Public` and `Private`. -/
inductive Visibility where
  | pub
  | priv
  deriving DecidableEq, Repr

structure Forward where
  port : Port
  visibility : Visibility
  label : Option String
  url : Option String
  slot : Option Slot
  deriving DecidableEq, Repr

inductive SlotError where
  | notPrivateForward (port : Port)
  | slotBusy (slot : Slot) (port : Port)
  | unknownSlot (slot : Slot)
  | portBoundElsewhere (port : Port) (slot : Slot)
  deriving DecidableEq, Repr

/-- `config::PROXY_SLOTS` -/
def proxySlots : List Slot := [8444, 8445, 8446, 8447, 8452, 8453, 8454, 8455, 8456, 8457, 8458, 8459]

abbrev ForwardMap := ExtTreeMap Port Forward

abbrev SlotMap := ExtTreeMap Slot Port

@[ext]
structure ForwardsInner where
  forwards : ForwardMap
  slots : SlotMap
  knownSlots : List Slot

/-- Whether the forward of `port` is private. -/
def stillPrivate (forwards : ForwardMap) (port : Port) : Bool :=
  forwards[port]?.any fun f => decide (f.visibility = .priv)

/-! ## `replace_if_unchanged` -/

/-- A list of forwards by port; of two forwards of one port the later stays. -/
def collect (forwards : List Forward) : ForwardMap := Maps.writeAll (fun f => some f.port) id forwards ∅

/-- The slot a listed forward claims: its own, when that is one of this boot's. -/
def claimedSlot (known : List Slot) (forward : Forward) : Option Slot := forward.slot.filter (· ∈ known)

/-- The bindings the list names; a slot named twice goes to the higher port. -/
def listedSlots (known : List Slot) (next : ForwardMap) : SlotMap :=
  Maps.writeAll (claimedSlot known) Forward.port (Maps.values next) ∅

/-- The old binding is of a port that is still a private forward, and neither its slot nor its port is bound. -/
def keeps (next : ForwardMap) (slots : SlotMap) (b : Slot × Port) : Bool :=
  stillPrivate next b.2 && !slots.contains b.1 && !(Maps.values slots).contains b.2

/-- Keeps the bindings learned from tokens. -/
def keepBindings (next : ForwardMap) (old : List (Slot × Port)) (slots : SlotMap) : SlotMap :=
  old.foldl (fun slots b => if keeps next slots b then slots.insert b.1 b.2 else slots) slots

def Forward.bind (slot : Slot) (forward : Forward) : Forward := { forward with slot := some slot }

/-- Writes each binding into its forward. -/
def stampSlots (slots : List (Slot × Port)) (next : ForwardMap) : ForwardMap :=
  Maps.modifyAll Prod.snd (fun b => Forward.bind b.1) slots next

namespace ForwardsInner

/-- The table `forwards` replaces `inner` by. -/
def replaced (inner : ForwardsInner) (forwards : List Forward) : ForwardsInner :=
  let next := collect forwards
  let slots := keepBindings next inner.slots.toList (listedSlots inner.knownSlots next)
  { inner with forwards := stampSlots slots.toList next, slots }

/-- The locked section of `replace_if_unchanged` once the generation is accepted: the table, and whether it
is bumped. -/
def replace (inner : ForwardsInner) (forwards : List Forward) : ForwardsInner × Bool :=
  let next := inner.replaced forwards
  if next.forwards = inner.forwards ∧ next.slots = inner.slots then (inner, false) else (next, true)

/-! ## The other operations -/

def insert (inner : ForwardsInner) (forward : Forward) : ForwardsInner × Bool :=
  if inner.forwards[forward.port]? = some forward then (inner, false)
  else
    let slots := inner.slots.filter fun _ port => port != forward.port
    let slots := match forward.slot with
      | some slot => slots.insert slot forward.port
      | none => slots
    ({ inner with forwards := inner.forwards.insert forward.port forward, slots }, true)

def remove (inner : ForwardsInner) (port : Port) : ForwardsInner × Bool :=
  let removed := inner.forwards.contains port
  let slots := inner.slots.filter fun _ bound => bound != port
  let unbound := slots.size != inner.slots.size
  ({ inner with forwards := inner.forwards.erase port, slots }, removed || unbound)

/-- The list, by port. -/
def current (inner : ForwardsInner) : List Forward := Maps.values inner.forwards

def slotPort (inner : ForwardsInner) (slot : Slot) : Option Port := inner.slots[slot]?

def publicSlotPort (inner : ForwardsInner) (slot : Slot) : Option Port :=
  inner.slots[slot]?.bind fun port =>
    (inner.forwards[port]?.filter fun forward => decide (forward.visibility = .pub)).map fun _ => port

/-- The other slot `port` is bound to, if any. -/
def boundElsewhere (inner : ForwardsInner) (slot : Slot) (port : Port) : Option (Slot × Port) :=
  inner.slots.toList.find? fun b => b.2 == port && b.1 != slot

def bindSlot (inner : ForwardsInner) (slot : Slot) (port : Port) : Except SlotError (ForwardsInner × Bool) :=
  if slot ∉ inner.knownSlots then .error (.unknownSlot slot)
  else if ¬ stillPrivate inner.forwards port then .error (.notPrivateForward port)
  else if inner.slots[slot]? = some port then .ok (inner, false)
  else match inner.slots[slot]?.filter (inner.forwards.contains ·) with
    | some existing => .error (.slotBusy slot existing)
    | none => match inner.boundElsewhere slot port with
      | some (boundSlot, _) => .error (.portBoundElsewhere port boundSlot)
      | none => .ok ({ inner with
          slots := inner.slots.insert slot port
          forwards := inner.forwards.modify port (Forward.bind slot) }, true)

end ForwardsInner

/-! ## The shared state -/

/-- The table and its change counter. -/
structure ForwardsState where
  inner : ForwardsInner
  changed : Nat

namespace ForwardsState

/-- Empty list over the given proxy slots. -/
def withSlots (slots : List Slot) : ForwardsState := ⟨⟨∅, ∅, slots⟩, 0⟩

def generation (s : ForwardsState) : Nat := s.changed

/-- The end of an operation: the table its locked section leaves, and its bump. -/
def after (s : ForwardsState) (r : ForwardsInner × Bool) : ForwardsState :=
  ⟨r.1, if r.2 then s.changed + 1 else s.changed⟩

def replaceIfUnchanged (s : ForwardsState) (forwards : List Forward) (expected : Option Nat) : ForwardsState × Bool :=
  if expected.all (s.changed = ·) then (s.after (s.inner.replace forwards), true) else (s, false)

def replace (s : ForwardsState) (forwards : List Forward) : ForwardsState :=
  (s.replaceIfUnchanged forwards none).1

def insert (s : ForwardsState) (forward : Forward) : ForwardsState := s.after (s.inner.insert forward)

def remove (s : ForwardsState) (port : Port) : ForwardsState := s.after (s.inner.remove port)

def bindSlot (s : ForwardsState) (slot : Slot) (port : Port) : ForwardsState × Except SlotError Unit :=
  match s.inner.bindSlot slot port with
  | .ok r => (s.after r, .ok ())
  | .error e => (s, .error e)

end ForwardsState

/-- One operation on the table. -/
inductive ForwardOp where
  | replace (forwards : List Forward)
  | replaceIfUnchanged (forwards : List Forward) (expected : Option Nat)
  | insert (forward : Forward)
  | remove (port : Port)
  | bindSlot (slot : Slot) (port : Port)

def ForwardOp.apply (s : ForwardsState) : ForwardOp → ForwardsState
  | .replace forwards => s.replace forwards
  | .replaceIfUnchanged forwards expected => (s.replaceIfUnchanged forwards expected).1
  | .insert forward => s.insert forward
  | .remove port => s.remove port
  | .bindSlot slot port => (s.bindSlot slot port).1

/-- The states after the operations of a list in turn. -/
def ForwardsState.run (s : ForwardsState) (ops : List ForwardOp) : ForwardsState := ops.foldl ForwardOp.apply s

end Zedspaces.Supervisor
