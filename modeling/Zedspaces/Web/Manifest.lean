/-
The manifest the control plane builds for a workspace's sandbox (`manifest.ts`), what it is built from, and the requests
that write it: creation (`create-workspace.ts`, `github.ts`), the owner's documents (`settings-docs.ts`), forwards and
activity reports (`forwards.ts`), and the row's lifecycle (`db-steps.ts`). Behind it, how the supervisor reads the document.
-/
import Zedspaces.Lib.Utf16
import Zedspaces.Lifecycle.Schema
import Zedspaces.Supervisor.Manifest
import Zedspaces.Web.Forwards

namespace Zedspaces.Web

open Lib
open Lifecycle (RestoreKind)

/-- An instant that a `Date` holds, in Unix milliseconds. -/
structure Instant where
  ms : Nat
  le : ms ≤ 8640000000000000

/-! ## The deployment -/

structure Repo where
  owner : Text
  name : Text
  defaultBranch : Text

/-- What the public GitHub API answers. -/
structure Github where
  repo : Text → Text → Option Repo
  /-- The head of a branch. -/
  branch : Text → Text → Text → Option Text
  commit : Text → Text → Text → Option Text
  /-- The head branch of a pull request, and its commit. -/
  pull : Text → Text → Nat → Option (Text × Text)

structure Deployment where
  env : Env
  /-- `new URL`, which reads a URL as the supervisor's URL parser does. -/
  parse : Text → Except String Url
  github : Github
  /-- `publicKeyPems(await loadSigningKeys())` -/
  publicKeyPems : List Text
  presignGet : Text → Text
  localCloneUrl : Text → Text
  /-- The URL check of the body schemas: the string it lets through. -/
  urlSchema : Utf16 → Option Utf16
  envShort : Text

variable (d : Deployment)

def controlPlaneUrl : Option Text :=
  (controlApiBase d.env).bind fun base => match d.parse base.toList with
    | .ok url => some url.origin
    | .error _ => none

def isLocalRepo (owner : Text) : Bool := owner = "local".toList && d.env.backend = .local

def cloneUrl (owner name : Text) : Text :=
  if isLocalRepo d owner then d.localCloneUrl name
  else "https://github.com/".toList ++ owner ++ '/' :: name ++ ".git".toList

/-- Named after the workspace, and new with each generation. -/
def newSandboxName (workspaceId : Text) (generation : Nat) : Text :=
  "sb-".toList ++ d.envShort ++ '-' :: (workspaceId.drop 3).map Char.toLower ++ "-g".toList ++
    Nat.toDigits 10 generation

/-! ## Creation -/

inductive RefRequest where
  | branch (name : Text)
  | pullRequest (number : Nat)
  | revision (sha : Text)

structure ResolvedRef where
  branch : Option Text
  sha : Text
  gitRef : Option Text

def pullRef (number : Nat) : Text := "refs/pull/".toList ++ Nat.toDigits 10 number ++ "/head".toList

def loadRef (owner repo : Text) : RefRequest → Option ResolvedRef
  | .pullRequest number => (d.github.pull owner repo number).map fun head =>
    ⟨some head.1, head.2, some (pullRef number)⟩
  | .revision sha => (d.github.commit owner repo sha).map fun sha => ⟨none, sha, none⟩
  | .branch name => (d.github.branch owner repo name).map fun sha => ⟨some name, sha, none⟩

def idleMinutesFor (requested : Int) : Nat := (min 240 (max 5 requested)).toNat

/-- The columns of a workspace row that the manifest is built from. -/
structure ManifestWorkspace where
  id : Text
  ownerUserId : Text
  sandboxName : Text
  sandboxGeneration : Nat
  serverBuild : Text
  clientBuild : Text
  region : Text
  branch : Option Text
  revision : Option Text
  gitRef : Option Text
  restoreKind : RestoreKind
  restoreBlobPathname : Option Text
  audience : Text
  currentSandboxSessionId : Option Text
  sessionStartedAt : Option Instant
  createdAt : Instant
  idleMinutes : Nat
  lastStoppedAt : Option Instant
  installedExtensions : List Text

/-- The `dotfiles` document, stored as JSON text: its strings may hold lone surrogates, which a text column does not
keep. -/
structure DotfilesDoc where
  repoUrl : Option Utf16
  installCommand : Option Utf16
  deriving DecidableEq

/-- The owner's settings documents. -/
structure UserDocs where
  settings : Option Text
  keymap : Option Text
  dotfiles : Option DotfilesDoc

/-- A workspace and what else its manifest is built from. -/
structure ManifestState where
  workspace : ManifestWorkspace
  repo : Repo
  docs : UserDocs
  forwards : ForwardsDb

/-- A creation as the route takes it. `idleMinutes` is the first given of the request's, the repository's and the
user's. -/
structure CreateRequest where
  id : Text
  userId : Text
  owner : Text
  name : Text
  ref : Option RefRequest
  region : Text
  idleMinutes : Int
  serverBuild : Text
  clientBuild : Text
  now : Instant

def CreateRequest.row (req : CreateRequest) (ref : ResolvedRef) : ManifestWorkspace where
  id := req.id
  ownerUserId := req.userId
  sandboxName := newSandboxName d req.id 1
  sandboxGeneration := 1
  serverBuild := req.serverBuild
  clientBuild := req.clientBuild
  region := req.region
  branch := ref.branch
  revision := some ref.sha
  gitRef := ref.gitRef
  restoreKind := .fresh
  restoreBlobPathname := none
  audience := newSandboxName d req.id 1
  currentSandboxSessionId := none
  sessionStartedAt := none
  createdAt := req.now
  idleMinutes := idleMinutesFor req.idleMinutes
  lastStoppedAt := none
  installedExtensions := []

def createPublicWorkspace (docs : UserDocs) (req : CreateRequest) : Option ManifestState := do
  let repo ← d.github.repo req.owner req.name
  let ref ← loadRef d repo.owner repo.name (req.ref.getD (.branch repo.defaultBranch))
  some ⟨req.row d ref, repo, docs, .empty⟩

/-! ## Later requests -/

/-- The dotfiles repository must be an `https` URL. -/
def assertHttpsRepoUrl (raw : Utf16) : Bool :=
  match d.parse raw.toTextLossy with
  | .ok url => url.scheme = Url.https
  | .error _ => false

/-- `PUT /api/me/dotfiles`: the body as the schema lets it through. -/
def putDotfiles (input : DotfilesDoc) : Option DotfilesDoc :=
  match input.repoUrl with
  | none => if input.installCommand.all (·.length ≤ 1024) then some input else none
  | some raw => match d.urlSchema raw with
    | none => none
    | some repoUrl =>
      if input.installCommand.all (·.length ≤ 1024) ∧ assertHttpsRepoUrl d repoUrl then
        some { input with repoUrl := some repoUrl }
      else none

/-- A `PUT` of a settings document. -/
inductive DocRequest where
  | settings (content : Text)
  | keymap (content : Text)
  | dotfiles (input : DotfilesDoc)

def UserDocs.empty : UserDocs := ⟨none, none, none⟩

/-- The documents after a request; one that is refused changes nothing. -/
def UserDocs.apply (docs : UserDocs) : DocRequest → UserDocs
  | .settings content => { docs with settings := some content }
  | .keymap content => { docs with keymap := some content }
  | .dotfiles input => match putDotfiles d input with
    | some doc => { docs with dotfiles := some doc }
    | none => docs

/-- What can happen to a workspace, its repository's row and its owner's documents. -/
inductive ManifestRequest where
  /-- A creation refreshes the repository's row from GitHub. -/
  | registerRepo (owner name : Text)
  | docs (request : DocRequest)
  | forward (call : ForwardCall)
  | patch (idleMinutes : Nat)
  | extensions (installed : List Text)
  | recordSandboxSession (sessionId : Text) (restoreKind : Option RestoreKind) (now : Instant)
  | markStopped (now : Instant)
  | bumpGeneration (blobPathname serverBuild clientBuild : Text)
  | clearRestore

/-- The row on a new generation, which restores the archive. -/
def ManifestWorkspace.bump (ws : ManifestWorkspace) (blobPathname serverBuild clientBuild : Text) :
    ManifestWorkspace :=
  let generation := ws.sandboxGeneration + 1
  let name := newSandboxName d ws.id generation
  { ws with
    sandboxGeneration := generation, sandboxName := name, audience := name, restoreKind := .tarball,
    restoreBlobPathname := some blobPathname, serverBuild, clientBuild, currentSandboxSessionId := none }

/-- The state after a request; one that is refused changes nothing. -/
def ManifestState.apply (s : ManifestState) : ManifestRequest → ManifestState
  | .registerRepo owner name => { s with repo := (d.github.repo owner name).getD s.repo }
  | .docs request => { s with docs := s.docs.apply d request }
  | .forward call => { s with forwards := s.forwards.apply d.env call }
  | .patch idleMinutes =>
    if 5 ≤ idleMinutes ∧ idleMinutes ≤ 240 then { s with workspace := { s.workspace with idleMinutes } } else s
  | .extensions installed => { s with workspace := { s.workspace with installedExtensions := installed } }
  | .recordSandboxSession sessionId restoreKind now =>
    { s with workspace := { s.workspace with
        currentSandboxSessionId := some sessionId, sessionStartedAt := some now,
        restoreKind := restoreKind.getD s.workspace.restoreKind } }
  | .markStopped now => { s with workspace := { s.workspace with lastStoppedAt := some now } }
  | .bumpGeneration blobPathname serverBuild clientBuild =>
    { s with workspace := s.workspace.bump d blobPathname serverBuild clientBuild }
  | .clearRestore => { s with workspace := { s.workspace with restoreBlobPathname := none } }

def UserDocs.after (docs : UserDocs) (requests : List DocRequest) : UserDocs := requests.foldl (UserDocs.apply d) docs

def ManifestState.after (s : ManifestState) (requests : List ManifestRequest) : ManifestState :=
  requests.foldl (ManifestState.apply d) s

/-! ## The document -/

structure RepoBlock where
  owner : Text
  name : Text
  cloneUrl : Text
  defaultBranch : Text
  revision : Text
  depth : Nat
  commit : Option Text
  ref : Option Text

structure JwtBlock where
  issuer : Text
  audience : Text
  portAudience : Text
  publicKeys : List Text

structure RestoreBlock where
  tarballUrl : Text
  sha256 : Option Text

structure DotfilesBlock where
  repoUrl : Utf16
  installCommand : Option Utf16

structure SettingsBlock where
  settings : Text
  keymap : Text

structure SessionBlock where
  id : Text
  startedAt : Int
  capAt : Int
  resumed : Bool

structure LogsBlock where
  flushIntervalSecs : Nat
  maxBatch : Nat
  maxBatchBytes : Nat

structure SandboxManifest where
  version : Nat
  workspaceId : Text
  sandboxName : Text
  sandboxGeneration : Nat
  userId : Text
  build : Text
  clientBuild : Text
  region : Text
  repo : RepoBlock
  workspaceDir : Text
  restore : Option RestoreBlock
  dotfiles : Option DotfilesBlock
  env : List (Text × Text)
  secretNames : List Text
  jwt : JwtBlock
  forwards : List ForwardView
  proxySlots : List Nat
  idleMinutes : Nat
  session : SessionBlock
  settings : Option SettingsBlock
  logs : LogsBlock
  activityIntervalSecs : Nat
  allowedOrigins : List Text
  extensions : List Text

def isHex (c : Char) : Bool := c.isDigit || ('a' ≤ c && c ≤ 'f')

/-- The 64 hexadecimal digits between a dash and the `.tgz` that end the path. -/
def sha256FromBlobPathname (pathname : Text) : Option Text :=
  if ".tgz".toList.isSuffixOf pathname then
    let stem := pathname.take (pathname.length - 4)
    let digest := stem.drop (stem.length - 64)
    if digest.length = 64 ∧ digest.all isHex ∧ ['-'].isSuffixOf (stem.take (stem.length - 64)) then some digest else none
  else none

def restoreBlock (ws : ManifestWorkspace) : Option RestoreBlock :=
  match ws.restoreBlobPathname with
  | some pathname =>
    if ws.restoreKind = .tarball ∧ pathname ≠ [] then some ⟨d.presignGet pathname, sha256FromBlobPathname pathname⟩
    else none
  | none => none

def settingsBlock (docs : UserDocs) : Option SettingsBlock :=
  if docs.settings.isSome ∨ docs.keymap.isSome then
    some ⟨docs.settings.getD ['\x7b', '\x7d'], docs.keymap.getD ['[', ']']⟩
  else none

/-- A repository URL that is absent or empty means no dotfiles. -/
def dotfilesBlock (docs : UserDocs) : Option DotfilesBlock :=
  docs.dotfiles.bind fun doc => match doc.repoUrl with
    | some repoUrl => if repoUrl = [] then none else some ⟨repoUrl, doc.installCommand⟩
    | none => none

/-- Branch workspaces stay attached, revision and pull-request workspaces are pinned. -/
def manifestRevision (ws : ManifestWorkspace) (repo : Repo) : Text :=
  if ws.gitRef.isSome ∨ ws.branch = none then ws.revision.getD repo.defaultBranch
  else ws.branch.getD repo.defaultBranch

def repoBlock (ws : ManifestWorkspace) (repo : Repo) : RepoBlock where
  owner := repo.owner
  name := repo.name
  cloneUrl := cloneUrl d repo.owner repo.name
  defaultBranch := repo.defaultBranch
  revision := manifestRevision ws repo
  depth := 0
  commit := ws.revision.filter (· ≠ [])
  ref := ws.gitRef.filter (· ≠ [])

def sessionBlock (ws : ManifestWorkspace) : SessionBlock :=
  let startedAt := (ws.sessionStartedAt.getD ws.createdAt).ms
  ⟨ws.currentSandboxSessionId.getD [], startedAt, startedAt + d.env.sessionCapMs,
    ws.lastStoppedAt.isSome && ws.restoreKind ≠ .tarball⟩

def manifestOf (s : ManifestState) (origin : Text) : SandboxManifest where
  version := 1
  workspaceId := s.workspace.id
  sandboxName := s.workspace.sandboxName
  sandboxGeneration := s.workspace.sandboxGeneration
  userId := s.workspace.ownerUserId
  build := s.workspace.serverBuild
  clientBuild := s.workspace.clientBuild
  region := s.workspace.region
  repo := repoBlock d s.workspace s.repo
  workspaceDir := "/workspaces/".toList ++ s.repo.name
  restore := restoreBlock d s.workspace
  dotfiles := dotfilesBlock s.docs
  env := [("ZS_WORKSPACE_ID".toList, s.workspace.id), ("ZS_REGION".toList, s.workspace.region)]
  secretNames := []
  jwt := ⟨d.env.jwtIssuer.toList, s.workspace.audience, s.workspace.audience ++ "/ports".toList, d.publicKeyPems⟩
  forwards := forwardViews s.forwards
  proxySlots
  idleMinutes := s.workspace.idleMinutes
  session := sessionBlock d s.workspace
  settings := settingsBlock s.docs
  logs := ⟨5, 200, 262144⟩
  activityIntervalSecs := 30
  allowedOrigins := [origin]
  extensions := s.workspace.installedExtensions

/-- `none` when the deployment has no control-plane URL. -/
def workspaceManifest (s : ManifestState) : Option SandboxManifest := (controlPlaneUrl d).map (manifestOf d s)

/-! ## Reading the document -/

/-- A string is read as text: one with a lone surrogate is written as an escape that denotes no character. -/
def DotfilesBlock.decode (block : DotfilesBlock) : Option Supervisor.DotfilesSpec :=
  match block.repoUrl.toText, block.installCommand with
  | some repoUrl, none => some ⟨repoUrl, none⟩
  | some repoUrl, some command => command.toText.map fun command => ⟨repoUrl, some command⟩
  | none, _ => none

/-- A `u64` of the document. -/
def decodeU64 (n : Int) : Option Nat := if 0 ≤ n ∧ n < 2 ^ 64 then some n.toNat else none

/-- A part of the document that may be absent. -/
def decodeOption {α β : Type} (decode : α → Option β) : Option α → Option (Option β)
  | none => some none
  | some a => (decode a).map some

def SessionBlock.decode (block : SessionBlock) : Option Supervisor.SessionSpec := do
  let startedAt ← decodeU64 block.startedAt
  let capAt ← decodeU64 block.capAt
  some ⟨block.id, startedAt, capAt, block.resumed⟩

/-- The document with the parts that need decoding decoded. -/
def SandboxManifest.withParts (doc : SandboxManifest) (dotfiles : Option Supervisor.DotfilesSpec)
    (forwards : List Supervisor.Forward) (session : Supervisor.SessionSpec) : Supervisor.Manifest where
  version := doc.version
  workspaceId := doc.workspaceId
  sandboxName := doc.sandboxName
  userId := doc.userId
  build := doc.build
  clientBuild := some doc.clientBuild
  region := doc.region
  repo := ⟨doc.repo.owner, doc.repo.name, doc.repo.cloneUrl, doc.repo.defaultBranch, doc.repo.revision, doc.repo.depth,
    doc.repo.ref⟩
  workspaceDir := doc.workspaceDir
  restore := doc.restore.map fun block => ⟨block.tarballUrl, block.sha256⟩
  dotfiles
  env := doc.env
  secretNames := doc.secretNames
  jwt := ⟨doc.jwt.issuer, doc.jwt.audience, doc.jwt.publicKeys⟩
  portSessionSecret := none
  forwards
  idleMinutes := doc.idleMinutes
  session
  settings := doc.settings.map fun block => ⟨block.settings, block.keymap⟩
  logs := ⟨doc.logs.flushIntervalSecs, doc.logs.maxBatch, doc.logs.maxBatchBytes⟩
  activityIntervalSecs := doc.activityIntervalSecs
  allowedOrigins := doc.allowedOrigins
  extensions := doc.extensions

/-- `serde_json`: a part out of its type's range fails the whole document. -/
def SandboxManifest.decode (doc : SandboxManifest) : Option Supervisor.Manifest := do
  let dotfiles ← decodeOption DotfilesBlock.decode doc.dotfiles
  let forwards ← decodeForwards doc.forwards
  let session ← doc.session.decode
  if doc.idleMinutes < 2 ^ 32 then some (doc.withParts dotfiles forwards session) else none

/-- `Manifest::parse` -/
def parseManifest (doc : SandboxManifest) : Except String Supervisor.Manifest :=
  match doc.decode with
  | none => .error "manifest: invalid JSON"
  | some m => do
    m.checkShape d.parse none
    pure m

/-- The sandbox with that configuration gets past the manifest. -/
def Accepted (cfg : Supervisor.Config) (s : ManifestState) : Prop :=
  ∃ doc m, workspaceManifest d s = some doc ∧ parseManifest d doc = .ok m ∧ m.validate d.parse cfg = .ok ()

end Zedspaces.Web
