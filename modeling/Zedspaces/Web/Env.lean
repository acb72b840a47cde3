/-
The deployment's environment as the port, token and manifest code of the control plane reads it
(`env.ts`).
-/
import Mathlib.Tactic.Common

namespace Zedspaces.Web

/-- `ZS_SANDBOX_BACKEND` -/
inductive Backend where
  | vercel | «local» | docker
  deriving DecidableEq, Repr

structure Env where
  /-- `ZS_CONTROL_URL` -/
  controlUrl : Option String
  /-- `VERCEL_URL` -/
  vercelUrl : Option String
  /-- `ZS_RPC_PORT` -/
  rpcPort : Int
  /-- `ZS_HEALTH_PORT` -/
  healthPort : Int
  /-- `ZS_SANDBOX_BACKEND` -/
  backend : Backend
  /-- `ZS_SESSION_CAP_MS` -/
  sessionCapMs : Int
  /-- `ZS_JWT_ISSUER` -/
  jwtIssuer : String

def stripTrailingSlashes (value : String) : String :=
  String.ofList (value.toList.reverse.dropWhile (· = '/')).reverse

/-- `none` when neither URL is set: the caller throws. -/
def controlApiBase (e : Env) : Option String :=
  match e.controlUrl with
  | some url => some (stripTrailingSlashes url)
  | none => e.vercelUrl.map fun url => "https://" ++ stripTrailingSlashes url ++ "/api"

def infraPortMin : Int := 8443

def infraPortMax : Int := 8460

def proxySlots : List Nat := [8444, 8445, 8446, 8447, 8452, 8453, 8454, 8455, 8456, 8457, 8458, 8459]

/-- Ports that can never be app previews. -/
def isInfraPort (e : Env) (port : Int) : Bool :=
  port ∈ ([22, 53, 111, 23456] : List Int) || (infraPortMin ≤ port && port ≤ infraPortMax) || port = e.rpcPort ||
    port = e.healthPort || proxySlots.any fun slot => port = slot

/-- A deployment, for examples. -/
def sampleEnv : Env := ⟨some "https://z/api", none, 8443, 8448, .vercel, 86400000, "z"⟩

end Zedspaces.Web
