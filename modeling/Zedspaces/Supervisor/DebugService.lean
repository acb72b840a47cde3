/-
The debugger service (`DebugService`). A connection is authorized by a signed token with an id, which `authorize` enters
into the table of used ids; its session starts what its first message defines, if the token carries the hash of that
message.
-/
import Zedspaces.Lib.IpAddr
import Zedspaces.Supervisor.Manifest
import Zedspaces.Supervisor.PortSessions

namespace Zedspaces.Supervisor

open Std Lib Lib.Text

/-- `PROTOCOL` -/
def dapProtocol : Text := "zs.dap.v1".toList

/-- `MAX_LAUNCH` -/
def maxLaunch : Nat := 64 * 1024

def debugSlots : Nat := 4

/-- `debugger::Claims` -/
structure DebugClaims where
  ws : Text
  sub : Text
  exp : Nat
  iat : Nat
  jti : String
  launch : Text
  deriving DecidableEq, Repr

/-- `debugger::Config`, but for the keys and what `jsonwebtoken` validates. -/
structure DebugConfig where
  workspace : Text
  root : Text
  origins : List Text

/-- The method of a request and the headers that are read, where they are text. -/
structure DebugRequest where
  method : Text
  origin : Option Text
  protocols : Option Text
  connection : Option Text
  upgrade : Option Text
  version : Option Text
  key : Option Text

structure DebugConnection where
  host : IpAddr
  port : Port
  timeout : Option Nat

structure Launch where
  command : Option Text
  arguments : List Text
  envs : List (Text × Text)
  cwd : Option Text
  connection : Option DebugConnection

/-- The libraries: what `jsonwebtoken` checks of a token's claims, the key of a WebSocket in base64, the digest in
hexadecimal, and JSON. -/
structure DebugCrates where
  validates : DebugConfig → Nat → DebugClaims → Bool
  decodeKey : Text → Option (List UInt8)
  hexDigest : List UInt8 → Text
  fromSlice : List UInt8 → Except String Launch

/-- `IpAddr::is_loopback` -/
def isLoopback : IpAddr → Bool
  | .v4 addr => addr.a = 127
  | .v6 addr => addr.segments = [0, 0, 0, 0, 0, 0, 0, 1]

/-- `Option::context` -/
def context {α : Type} (message : String) : Option α → Except String α
  | none => .error message
  | some a => .ok a

/-! ## Authorization -/

namespace DebugService

section
variable (decode : DebugConfig → Text → Option DebugClaims) (config : Option DebugConfig) (now : Nat)
  (req : DebugRequest)

/-- What `authorize` asks of a request and its token, but for the table. -/
def authorizeClaims : Except String DebugClaims := do
  let config ← context "Workspace is starting" config
  bailIf (req.method ≠ "GET".toList) "WebSocket GET required"
  let origin ← context "Origin required" req.origin
  bailIf (origin ∉ config.origins) "Origin not allowed"
  let protocols ← context "Missing debug token" req.protocols
  bailIf (4096 < (utf8 protocols).length) "Debug token too large"
  let protocols := (protocols.splitOn ',').map trim
  bailIf (¬ (protocols.length = 2 ∧ protocols[0]? = some dapProtocol)) "Invalid debug protocol"
  let claims ← context "Invalid or expired debug token" (decode config (protocols.getD 1 []))
  bailIf (¬ (claims.ws = config.workspace ∧ claims.sub ≠ [])) "Wrong workspace"
  bailIf (¬ (now < claims.exp ∧ claims.iat ≤ now + 5 ∧ claims.iat ≤ claims.exp ∧ claims.exp - claims.iat ≤ 120))
    "Expired debug token"
  bailIf (¬ (claims.jti.utf8ByteSize ≤ 128 ∧ claims.jti ≠ "" ∧ (utf8 claims.launch).length = 64)) "Invalid debug token"
  .ok claims

/-- `DebugService::authorize` -/
def authorize (used : Expiries) : Except String DebugClaims × Expiries :=
  match authorizeClaims decode config now req with
  | .error e => (.error e, used)
  | .ok claims =>
    let used := prune used now
    if used.size < 128 ∧ used.contains claims.jti = false then (.ok claims, used.insert claims.jti claims.exp)
    else (.error "Debug token already used", used)

end

end DebugService

/-- The headers of a WebSocket upgrade. -/
def isWebSocketUpgrade (req : DebugRequest) : Bool :=
  req.connection.any (fun v => (v.splitOn ',').any fun part => (trim part).map Char.toLower = "upgrade".toList) &&
    req.upgrade.map (·.map Char.toLower) = some "websocket".toList && req.version = some "13".toList

/-! ## A session -/

/-- The first message of a connection. -/
structure FirstMessage where
  isText : Bool
  data : List UInt8

/-- What `session` asks of the first message before it starts anything; `canonicalize` gives the components of a
path. -/
def checkLaunch (c : DebugCrates) (canonicalize : Text → Except String (List Text)) (config : Option DebugConfig)
    (claims : DebugClaims) (first : FirstMessage) : Except String Launch := do
  bailIf (¬ (first.isText = true ∧ first.data.length ≤ maxLaunch)) "Invalid launch definition"
  bailIf (c.hexDigest first.data ≠ claims.launch) "Launch definition does not match token"
  let launch ← c.fromSlice first.data
  let config ← context "Workspace is starting" config
  let cwd ← canonicalize (launch.cwd.getD config.root)
  let root ← canonicalize config.root
  bailIf (root.isPrefixOf cwd = false) "Debug working directory is outside the project"
  ifPresent (fun connection : DebugConnection =>
    bailIf (¬ (isLoopback connection.host = true ∧ 1023 < connection.port ∧ connection.port ∉ infraPorts))
      "Private loopback debug port required") launch.connection
  bailIf (¬ (launch.arguments.length ≤ 512 ∧ launch.envs.length ≤ 1024)) "Launch definition is too large"
  bailIf (¬ (launch.command.isSome = true ∨ launch.connection.isSome = true)) "No debug adapter command or connection"
  bailIf (launch.command = some []) "No debug adapter program"
  .ok launch

/-! ## The service -/

inductive DebugPhase where
  | awaiting
  | connecting (definition : List UInt8)
  | running

/-- A connection that was upgraded, with the permit it holds. -/
structure DebugSession where
  id : Nat
  claims : DebugClaims
  phase : DebugPhase

inductive StartKind where
  | process
  | connection
  deriving DecidableEq, Repr

/-- What was started for a token id, and by which definition. -/
structure Start where
  jti : String
  kind : StartKind
  definition : List UInt8
  deriving DecidableEq

/-- The service, the tokens that the control plane has signed for it, and what has been accepted and started. -/
structure Debugger where
  clock : Nat
  config : Option DebugConfig
  used : Expiries
  slots : Nat
  nextId : Nat
  sessions : List DebugSession
  signed : List (Text × DebugClaims)
  accepted : List DebugClaims
  started : List Start

inductive DebugEvent where
  | advance (seconds : Nat)
  | configure (config : DebugConfig)
  | sign (token : Text) (claims : DebugClaims)
  | upgrade (req : DebugRequest)
  | first (id : Nat) (message : FirstMessage) (canonicalize : Text → Except String (List Text)) (spawned : Bool)
  | connected (id : Nat)
  | closed (id : Nat)

namespace Debugger

variable (c : DebugCrates) (s : Debugger)

/-- A token is verified if it was signed and its claims are validated. -/
def decode (config : DebugConfig) (token : Text) : Option DebugClaims :=
  ((s.signed.find? (·.1 = token)).map Prod.snd).filter (c.validates config s.clock)

/-- `DebugService::upgrade`, with the answer's status and text. -/
def upgrade (req : DebugRequest) : Debugger × Nat × String :=
  match DebugService.authorize (s.decode c) s.config s.clock req s.used with
  | (.error _, used) => ({ s with used }, 401, "Debugger access refused")
  | (.ok claims, used) =>
    let s := { s with used, accepted := claims :: s.accepted }
    if s.slots = 0 then (s, 429, "Four debugger or kernel sessions are already running")
    else if isWebSocketUpgrade req = false then (s, 400, "WebSocket upgrade required")
    else if ((req.key.bind c.decodeKey).any (·.length = 16)) = false then (s, 400, "Missing WebSocket key")
    else
      ({ s with
        slots := s.slots - 1
        nextId := s.nextId + 1
        sessions := ⟨s.nextId, claims, .awaiting⟩ :: s.sessions }, 101, "")

def find (id : Nat) : Option DebugSession := s.sessions.find? (·.id = id)

def others (id : Nat) : List DebugSession := s.sessions.filter (·.id ≠ id)

/-- The session ends, and its permit is free. -/
def close (id : Nat) : Debugger := { s with sessions := s.others id, slots := s.slots + 1 }

/-- The first message of a session: its process is spawned, and the connection is to be made. -/
def launch (x : DebugSession) (first : FirstMessage) (canonicalize : Text → Except String (List Text))
    (spawned : Bool) : Debugger :=
  match checkLaunch c canonicalize s.config x.claims first with
  | .error _ => s.close x.id
  | .ok launch =>
    if launch.command.isSome = true ∧ spawned = false then s.close x.id
    else
      let phase := if launch.connection.isSome then .connecting first.data else .running
      { s with
        sessions := { x with phase } :: s.others x.id
        started := (if launch.command.isSome then [⟨x.claims.jti, .process, first.data⟩] else []) ++ s.started }

/-- The connection to the adapter is made. -/
def connect (x : DebugSession) (definition : List UInt8) : Debugger :=
  { s with
    sessions := { x with phase := .running } :: s.others x.id
    started := ⟨x.claims.jti, .connection, definition⟩ :: s.started }

/-- The control plane gives each token an id of its own (`crypto.randomUUID`). -/
def step : DebugEvent → Option Debugger
  | .advance seconds => some { s with clock := s.clock + seconds }
  | .configure config => some { s with config := s.config.or (some config) }
  | .sign token claims =>
    if claims.jti ∈ s.signed.map (·.2.jti) then none else some { s with signed := (token, claims) :: s.signed }
  | .upgrade req => some (s.upgrade c req).1
  | .first id message canonicalize spawned => (s.find id).bind fun x =>
    match x.phase with
    | .awaiting => some (s.launch c x message canonicalize spawned)
    | _ => none
  | .connected id => (s.find id).bind fun x =>
    match x.phase with
    | .connecting definition => some (s.connect x definition)
    | _ => none
  | .closed id => (s.find id).map fun x => s.close x.id

end Debugger

/-- The service of a supervisor that has just started. -/
def debugger (c : DebugCrates) : System Debugger DebugEvent where
  init s := s.used = ∅ ∧ s.config = none ∧ s.slots = debugSlots ∧ s.sessions = [] ∧ s.signed = [] ∧ s.accepted = [] ∧
    s.started = []
  step := Debugger.step c

/-! ## What authorization does -/

namespace DebugService

variable {decode : DebugConfig → Text → Option DebugClaims} {config : Option DebugConfig} {now : Nat}
  {req : DebugRequest} {claims : DebugClaims} {used used' : Expiries} {e : String}

theorem context_ok {α : Type} {message : String} {o : Option α} {a : α} (h : context message o = .ok a) :
    o = some a := by
  cases o with
  | none => cases h
  | some b => cases h; rfl

/-- The claims are those of a verified token that has not expired. -/
theorem authorizeClaims_ok (h : authorizeClaims decode config now req = .ok claims) :
    (∃ cfg token, decode cfg token = some claims) ∧ now < claims.exp := by
  unfold authorizeClaims at h
  obtain ⟨cfg, -, h⟩ := bind_eq_ok h
  obtain ⟨-, h⟩ := check_bind_ok.1 h
  obtain ⟨origin, -, h⟩ := bind_eq_ok h
  obtain ⟨-, h⟩ := check_bind_ok.1 h
  obtain ⟨protocols, -, h⟩ := bind_eq_ok h
  obtain ⟨-, h⟩ := check_bind_ok.1 h
  obtain ⟨-, h⟩ := check_bind_ok.1 h
  obtain ⟨claims', hdecode, h⟩ := bind_eq_ok h
  obtain ⟨-, h⟩ := check_bind_ok.1 h
  obtain ⟨hexpired, h⟩ := check_bind_ok.1 h
  obtain ⟨-, h⟩ := check_bind_ok.1 h
  cases h
  refine ⟨⟨cfg, _, context_ok hdecode⟩, ?_⟩
  unfold bailIf at hexpired
  split at hexpired
  · cases hexpired
  · next hnot => exact (not_not.1 hnot).1

/-- An accepted token has no record in force, and is recorded. -/
theorem authorize_ok (h : authorize decode config now req used = (.ok claims, used')) :
    authorizeClaims decode config now req = .ok claims ∧ used[claims.jti]?.filter (now < ·) = none ∧
      used' = (prune used now).insert claims.jti claims.exp ∧ used'.size ≤ 128 := by
  unfold authorize at h
  split at h
  · cases h
  · next claims' hclaims =>
    dsimp only at h
    split at h
    · next hfree =>
      cases h
      refine ⟨hclaims, ?_, rfl, Nat.le_trans ExtTreeMap.size_insert_le hfree.1⟩
      have hnone := hfree.2
      rw [ExtTreeMap.contains_eq_isSome_getElem?, Option.isSome_eq_false_iff, Option.isNone_iff_eq_none, getElem?_prune]
        at hnone
      exact hnone
    · cases h

theorem authorize_error (h : authorize decode config now req used = (.error e, used')) :
    used' = used ∨ used' = prune used now := by
  unfold authorize at h
  split at h
  · cases h
    exact .inl rfl
  · dsimp only at h
    split at h
    · cases h
    · cases h
      exact .inr rfl

end DebugService

end Zedspaces.Supervisor
