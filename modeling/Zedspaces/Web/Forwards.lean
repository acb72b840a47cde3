/-
The forward rows of one workspace and the three operations that write them (`forwards.ts`, `ports.ts`),
each one write transaction: an operation that throws leaves the rows as they were.
-/
import Mathlib.Data.List.Sort
import Zedspaces.Web.Env
import Zedspaces.Lifecycle.Schema
import Zedspaces.Supervisor.Forwards

namespace Zedspaces.Web

open Supervisor (Visibility Slot)
open Lifecycle (WorkspaceState)

/-- A `forwards` row of the workspace. -/
structure ForwardRow where
  port : Int
  visibility : Visibility
  label : Option String
  url : Option String
  slot : Option Slot
  deriving DecidableEq, Repr

/-- The rows, and the `zs:muted-ports` entry: explicitly unforwarded ports and when that is forgotten. -/
structure ForwardsDb where
  rows : List ForwardRow
  muted : Option (List Int × Option Int)

/-- The columns of the workspace that the operations read. -/
structure ForwardWorkspace where
  id : String
  state : WorkspaceState
  currentSlotHosts : Option (List (Slot × String))

structure CreateForwardRequest where
  port : Int
  visibility : Visibility
  label : Option String

inductive ForwardError where
  | invalidPort (port : Int)
  | infraPort (port : Int)
  | noFreeSlot
  | config
  | uniqueSlot
  deriving DecidableEq, Repr

variable (e : Env)

def assertForwardablePort (port : Int) : Except ForwardError Unit :=
  if port < 1 ∨ 65535 < port then .error (.invalidPort port)
  else if isInfraPort e port then .error (.infraPort port)
  else .ok ()

def ForwardsDb.mutedPorts (db : ForwardsDb) (now : Int) : List Int :=
  match db.muted with
  | some (ports, expiresAt) => if expiresAt.all (now < ·) then ports else []
  | none => []

def ForwardsDb.saveMutedPorts (db : ForwardsDb) (ports : List Int) (now : Int) : ForwardsDb :=
  { db with muted := if ports = [] then none else some (ports, some (now + 30 * 86400000)) }

/-- The rows obey the unique index on the slot, where a null slot equals none. -/
def uniqueSlots (rows : List ForwardRow) : Bool := decide (rows.filterMap ForwardRow.slot).Nodup

/-- The rows with the row inserted, or the row of its port updated by `set`. -/
def written (rows : List ForwardRow) (row : ForwardRow) (set : ForwardRow → ForwardRow) : List ForwardRow :=
  if rows.any (·.port = row.port) then rows.map fun r => if r.port = row.port then set r else r else rows ++ [row]

/-- `INSERT … ON CONFLICT (port) DO UPDATE` -/
def upsert (rows : List ForwardRow) (row : ForwardRow) (set : ForwardRow → ForwardRow) :
    Except ForwardError (List ForwardRow) :=
  if uniqueSlots (written rows row set) then .ok (written rows row set) else .error .uniqueSlot

/-- The slot the port holds, or the first free one. -/
def allocateSlot (rows : List ForwardRow) (port : Int) : Except ForwardError Slot :=
  match (rows.find? fun row => row.port = port && row.slot.isSome).bind ForwardRow.slot with
  | some slot => .ok slot
  | none => match proxySlots.find? fun slot => rows.all fun row => row.slot ≠ some slot with
    | some free => .ok free
    | none => .error .noFreeSlot

def slotHost (ws : ForwardWorkspace) (slot : Slot) : Option String :=
  ws.currentSlotHosts.bind fun hosts => hosts.lookup slot

def publicSlotUrl (ws : ForwardWorkspace) (slot : Slot) : Option String :=
  ((slotHost ws slot).filter (· ≠ "")).map fun host =>
    (if e.backend ≠ .vercel then "http" else "https") ++ "://" ++ host

def privateForwardUrl (workspaceId : String) (port : Int) : Option String :=
  (controlApiBase e).map fun base => base ++ "/workspaces/" ++ workspaceId ++ "/ports/" ++ toString port ++ "/open"

/-- The URL a created forward carries; the link of a private one needs the control plane's address. -/
def forwardUrl (ws : ForwardWorkspace) (request : CreateForwardRequest) (slot : Slot) :
    Except ForwardError (Option String) :=
  match request.visibility with
  | .priv => match privateForwardUrl e ws.id request.port with
    | some url => .ok (some url)
    | none => .error .config
  | .pub => .ok (publicSlotUrl e ws slot)

def createForward (ws : ForwardWorkspace) (request : CreateForwardRequest) (now : Int) (db : ForwardsDb) :
    Except ForwardError ForwardsDb := do
  assertForwardablePort e request.port
  let muted := db.mutedPorts now
  let db := if request.port ∈ muted then db.saveMutedPorts (muted.filter (· ≠ request.port)) now else db
  let slot ← allocateSlot db.rows request.port
  let url ← forwardUrl e ws request slot
  let row : ForwardRow := ⟨request.port, request.visibility, request.label, url, some slot⟩
  let rows ← upsert db.rows row fun _ => row
  pure { db with rows }

/-- `existing?.slot ?? available.shift()`, and the slots that stay available. -/
def nextSlot (existing : Option ForwardRow) (available : List Slot) : Option Slot × List Slot :=
  match existing.bind ForwardRow.slot with
  | some slot => (some slot, available)
  | none => (available.head?, available.tail)

/-- One listened port of a report: nothing for a muted port, an explicit private choice, a full slot table or a
row that is up to date; otherwise its public row. -/
def syncPort (ws : ForwardWorkspace) (stillListening : List Int) (kept : List ForwardRow)
    (st : List ForwardRow × List Slot) (port : Int) : Except ForwardError (List ForwardRow × List Slot) :=
  let existing := kept.find? (·.port = port)
  if port ∈ stillListening then .ok st
  else if existing.any (·.visibility = .priv) then .ok st
  else
    let available := (nextSlot existing st.2).2
    match (nextSlot existing st.2).1 with
    | none => .ok (st.1, available)
    | some slot => match publicSlotUrl e ws slot with
      | none => .ok (st.1, available)
      | some url =>
        if existing.any fun row => row.url = some url && row.slot = some slot then .ok (st.1, available)
        else do
          let rows ← upsert st.1 ⟨port, .pub, none, some url, some slot⟩ fun row =>
            { row with slot := some slot, url := some url }
          pure (rows, available)

def syncListeningForwards (ws : ForwardWorkspace) (listening : Option (List Int)) (now : Int) (db : ForwardsDb) :
    Except ForwardError ForwardsDb :=
  match listening with
  | none => .ok db
  | some listening =>
    if ws.state ≠ .running ∨ e.backend = .local then .ok db
    else do
      let ports := (listening.filter fun port => !isInfraPort e port).dedup
      let muted := db.mutedPorts now
      let stillListening := muted.filter (· ∈ ports)
      let db := if muted.length ≠ stillListening.length then db.saveMutedPorts stillListening now else db
      let kept := db.rows.filter fun row => !(row.visibility = .pub && row.port ∉ ports)
      let available := proxySlots.filter fun slot => kept.all fun row => row.slot ≠ some slot
      let (rows, _) ← (ports.insertionSort (· ≤ ·)).foldlM (syncPort e ws stillListening kept) (kept, available)
      pure { db with rows }

def removeForward (port : Int) (now : Int) (db : ForwardsDb) : Except ForwardError ForwardsDb := do
  assertForwardablePort e port
  let db := db.saveMutedPorts ((db.mutedPorts now).insert port) now
  pure { db with rows := db.rows.filter (·.port ≠ port) }

/-- One call of an operation. -/
inductive ForwardCall where
  | create (ws : ForwardWorkspace) (request : CreateForwardRequest) (now : Int)
  | sync (ws : ForwardWorkspace) (listening : Option (List Int)) (now : Int)
  | remove (port : Int) (now : Int)

def ForwardCall.run (db : ForwardsDb) : ForwardCall → Except ForwardError ForwardsDb
  | .create ws request now => createForward e ws request now db
  | .sync ws listening now => syncListeningForwards e ws listening now db
  | .remove port now => removeForward e port now db

/-- The rows after a call: an operation that throws is rolled back. -/
def ForwardsDb.apply (db : ForwardsDb) (call : ForwardCall) : ForwardsDb :=
  match call.run e db with
  | .ok db => db
  | .error _ => db

def ForwardsDb.empty : ForwardsDb := ⟨[], none⟩

/-- The rows of a new workspace after the calls of a list in turn. -/
def forwardsAfter (calls : List ForwardCall) : ForwardsDb := calls.foldl (ForwardsDb.apply e) .empty

/-! ## Views -/

/-- A forward as the directive and the manifest carry it. -/
structure ForwardView where
  port : Int
  visibility : Visibility
  label : Option String
  url : Option String
  slot : Option Slot
  deriving DecidableEq, Repr

def toForwardView (row : ForwardRow) : ForwardView := ⟨row.port, row.visibility, row.label, row.url, row.slot⟩

def forwardViews (db : ForwardsDb) : List ForwardView :=
  (db.rows.insertionSort fun a b => a.port ≤ b.port).map toForwardView

/-- What the supervisor reads a view as: its port and slot are `u16`. -/
def ForwardView.decode (view : ForwardView) : Option Supervisor.Forward :=
  if 0 ≤ view.port ∧ view.port ≤ 65535 ∧ view.slot.all (· ≤ 65535) then
    some ⟨view.port.toNat, view.visibility, view.label, view.url, view.slot⟩
  else none

/-- The forward list of a directive as the supervisor reads it; one bad entry fails the whole document. -/
def decodeForwards (views : List ForwardView) : Option (List Supervisor.Forward) := views.mapM ForwardView.decode

end Zedspaces.Web
