/-
The workspace manifest as the supervisor holds it, and the rules it must pass at boot (`manifest.rs`,
`control_plane.rs`): `checkShape` needs no environment, `validate` adds the identity, the workspaces directory and the
schemes. The URL parser is a parameter.
-/
import Mathlib.Data.List.Infix
import Zedspaces.Lib.Fallible
import Zedspaces.Lib.IpAddr
import Zedspaces.Lib.Urls
import Zedspaces.Supervisor.PortAuth

namespace Zedspaces.Supervisor

open Lib

def manifestVersion : Nat := 1

/-- `config::DEFAULT_WORKSPACES_DIR` -/
def defaultWorkspacesDir : Text := "/workspaces".toList

/-- The configuration a manifest is checked against. -/
structure Config where
  workspaceId : Text
  sandboxName : Text
  workspacesDir : Text
  proxySlots : List Slot
  insecureCookies : Bool
  «local» : Bool

/-! ## The document -/

structure RepoSpec where
  owner : Text
  name : Text
  cloneUrl : Text
  defaultBranch : Text
  revision : Text
  depth : Nat
  gitRef : Option Text

structure RestoreSpec where
  tarballUrl : Text
  sha256 : Option Text

structure DotfilesSpec where
  repoUrl : Text
  installCommand : Option Text

structure JwtSpec where
  issuer : Text
  audience : Text
  publicKeys : List Text

structure SessionSpec where
  id : Text
  startedAt : Nat
  capAt : Nat
  resumed : Bool

structure SettingsDocs where
  settings : Text
  keymap : Text

structure LogsSpec where
  flushIntervalSecs : Nat
  maxBatch : Nat
  maxBatchBytes : Nat

structure Manifest where
  version : Nat
  workspaceId : Text
  sandboxName : Text
  userId : Text
  build : Text
  clientBuild : Option Text
  region : Text
  repo : RepoSpec
  workspaceDir : Text
  restore : Option RestoreSpec
  dotfiles : Option DotfilesSpec
  env : List (Text × Text)
  secretNames : List Text
  jwt : JwtSpec
  portSessionSecret : Option Text
  forwards : List Forward
  idleMinutes : Nat
  session : SessionSpec
  settings : Option SettingsDocs
  logs : LogsSpec
  activityIntervalSecs : Nat
  allowedOrigins : List Text
  extensions : List Text

/-! ## The rules -/

/-- `if … { bail!(…) }` -/
def bailIf (c : Prop) [Decidable c] (message : String) : Except String Unit :=
  if c then .error message else .ok ()

/-- A check of a part the document may lack. -/
def ifPresent {α : Type} (check : α → Except String Unit) : Option α → Except String Unit
  | none => .ok ()
  | some a => check a

/-- No control character and no white space. -/
def isPrintable (t : Text) : Bool := t.all fun c => !(isAsciiControl c || Text.isWhitespace c)

/-- `git check-ref-format`-style rules. -/
def checkGitRef (value : Text) (what : String) : Except String Unit := do
  bailIf (value = []) ("manifest: " ++ what ++ " is empty")
  bailIf (['-'] <+: value) ("manifest: " ++ what ++ " must not start with '-'")
  bailIf (¬ isPrintable value ∨ value.any fun c => c ∈ ['~', '^', ':', '?', '*', '[', '\\'])
    ("manifest: " ++ what ++ " contains characters git refuses")
  bailIf (['.', '.'] <:+: value ∨ ['@', '\x7b'] <:+: value ∨ ['/', '/'] <:+: value ∨ ['/'] <+: value ∨
      ['/'] <:+ value ∨ ['.'] <:+ value ∨ ".lock".toList <:+ value ∨ value = ['@'])
    ("manifest: " ++ what ++ " is not a valid git ref")

section
variable (parse : Text → Except String Url)

def checkGitUrlShape (value : Text) (what : String) : Except String Url := do
  bailIf (['-'] <+: value) ("manifest: " ++ what ++ " must not start with '-'")
  bailIf (¬ isPrintable value) ("manifest: " ++ what ++ " contains control characters or whitespace")
  let url ← (parse value).mapError fun error => "manifest: " ++ what ++ ": " ++ error
  if url.scheme = Url.https ∨ url.scheme = Url.http then
    bailIf (url.host = none) ("manifest: " ++ what ++ " has no host")
  else
    bailIf (url.scheme ≠ "file".toList)
      ("manifest: " ++ what ++ " scheme " ++ String.ofList url.scheme ++ ":// is not allowed")
  pure url

/-- `https://` only, unless `allowLocal`. -/
def checkGitUrlScheme (value : Text) (what : String) (allowLocal : Bool) : Except String Unit := do
  let url ← checkGitUrlShape parse value what
  bailIf (url.scheme ≠ Url.https ∧ ¬ allowLocal)
    ("manifest: " ++ what ++ " must be https:// (got " ++ String.ofList url.scheme ++ "://)")

/-- `scheme://host[:port]` with no path, query, fragment or credentials. -/
def isOrigin (value : Text) : Bool :=
  match parse value with
  | .error _ => false
  | .ok url =>
    (url.scheme = Url.http || url.scheme = Url.https) && url.host.isSome && url.path = ['/'] &&
      !(['/'].isSuffixOf value) && url.query.isNone && url.fragment.isNone && url.username = [] &&
      url.password.isNone

/-! ### The archive's URL -/

def isPublicIpv4 (ip : Ipv4Addr) : Bool :=
  !(ip.a = 127 || (ip.a = 169 && ip.b = 254) || ip.a = 10 || (ip.a = 172 && 16 ≤ ip.b && ip.b ≤ 31) ||
    (ip.a = 192 && ip.b = 168) || ip = ⟨0, 0, 0, 0⟩ || ip = ⟨255, 255, 255, 255⟩ ||
    (ip.a = 192 && ip.b = 0 && ip.c = 2) || (ip.a = 198 && ip.b = 51 && ip.c = 100) ||
    (ip.a = 203 && ip.b = 0 && ip.c = 113) || (ip.a = 100 && 64 ≤ ip.b && ip.b ≤ 127))

/-- Globally routable, as far as the address alone can tell. -/
def isPublicIp : IpAddr → Bool
  | .v4 ip => isPublicIpv4 ip
  | .v6 ip => match ip.segments with
    | [0, 0, 0, 0, 0, 65535, hi, lo] => isPublicIpv4 ⟨hi / 256, hi % 256, lo / 256, lo % 256⟩
    | segments =>
      !(segments = [0, 0, 0, 0, 0, 0, 0, 1] || segments = [0, 0, 0, 0, 0, 0, 0, 0] ||
        (segments.headD 0) / 512 = 0xfc00 / 512 || (segments.headD 0) / 64 = 0xfe80 / 64)

/-- A name that resolves somewhere public. -/
def isPublicDomain (name : Text) : Bool :=
  let name := ((name.reverse.dropWhile (· = '.')).reverse).map Char.toLower
  if name = [] ∨ '.' ∉ name ∨ name = "localhost".toList then false
  else !(".localhost".toList.isSuffixOf name || ".local".toList.isSuffixOf name ||
    ".internal".toList.isSuffixOf name || ".home.arpa".toList.isSuffixOf name)

def checkTarballUrl (url : Text) (insecure : Bool) : Except String Unit := do
  let parsed ← (parse url).mapError fun error => "restore.tarballUrl: " ++ error
  bailIf (parsed.scheme ≠ Url.https ∧ ¬ (parsed.scheme = Url.http ∧ insecure))
    ("restore.tarballUrl must be https:// (got " ++ String.ofList parsed.scheme ++ "://)")
  bailIf (parsed.username ≠ [] ∨ parsed.password.isSome) "restore.tarballUrl must not carry credentials"
  match parsed.host with
  | none => .error "restore.tarballUrl has no host"
  | some host =>
    if insecure then pure ()
    else
      let bare := ((host.dropWhile (· = '[')).reverse.dropWhile (· = ']')).reverse
      match IpAddr.parse bare with
      | some ip =>
        bailIf (¬ isPublicIp ip) ("restore.tarballUrl host " ++ String.ofList host ++ " is not a public address")
      | none =>
        bailIf (¬ isPublicDomain bare) ("restore.tarballUrl host " ++ String.ofList host ++ " is not a public name")

/-! ### Parts of the shape -/

def beginPublicKey : Text := "-----BEGIN PUBLIC KEY-----".toList

def endPublicKey : Text := "-----END PUBLIC KEY-----".toList

def checkPublicKeys (index : Nat) : List Text → Except String Unit
  | [] => .ok ()
  | pem :: pems => do
    bailIf (¬ (beginPublicKey <:+: pem ∧ endPublicKey <:+: pem))
      ("manifest: jwt.publicKeys[" ++ toString index ++ "] is not a PEM PUBLIC KEY block")
    checkPublicKeys (index + 1) pems

/-- Standard base64, padded. -/
def decodeStandard (t : Text) : Option (List UInt8) :=
  if t.length % 4 ≠ 0 then none
  else
    let body := if "==".toList.isSuffixOf t then t.dropLast.dropLast else if ['='].isSuffixOf t then t.dropLast else t
    if body.any fun c => c = '-' || c = '_' then none
    else Base64Url.decode (body.map fun c => if c = '+' then '-' else if c = '/' then '_' else c)

/-- `port_session_key` -/
def checkPortSessionSecret (secret : Text) : Except String Unit :=
  bailIf (¬ ((decodeStandard (Text.trim secret)).any (·.length = 32)))
    "manifest: portSessionSecret: malformed token"

/-- The forwards in turn; `seen` are the slots of the earlier ones. -/
def checkForwards (slots : Option (List Slot)) (seen : List Slot) : List Forward → Except String Unit
  | [] => .ok ()
  | forward :: forwards => do
    bailIf (forward.port = 0 ∨ forward.port ∈ infraPorts)
      ("manifest: forwards[].port " ++ toString forward.port ++ " is not allowed")
    match forward.slot with
    | none => checkForwards slots seen forwards
    | some slot => do
      bailIf (slots.any (slot ∉ ·)) ("manifest: forwards[].slot " ++ toString slot ++ " is not a proxy slot")
      bailIf (slot ∈ seen) ("manifest: forwards[].slot " ++ toString slot ++ " is used twice")
      checkForwards slots (slot :: seen) forwards

def checkOrigins : List Text → Except String Unit
  | [] => .ok ()
  | origin :: origins => do
    bailIf (¬ isOrigin parse origin)
      ("manifest: allowedOrigins entry " ++ (String.ofList origin).quote ++ " is not an origin")
    checkOrigins origins

/-- The check alone, without the URL it reads. -/
def checkGitUrl (value : Text) (what : String) : Except String Unit :=
  (checkGitUrlShape parse value what).map fun _ => ()

def checkRestoreShape (restore : RestoreSpec) : Except String Unit :=
  bailIf (¬ ("https://".toList <+: restore.tarballUrl ∨ "http://".toList <+: restore.tarballUrl))
    "manifest: restore.tarballUrl must be an http(s) URL"

namespace Manifest
variable (m : Manifest)

/-- A blank ref counts as none. -/
def gitRef : Option Text := m.repo.gitRef.filter fun gitRef => Text.trim gitRef ≠ []

/-- Absolute and lexically normal. -/
def normalDir : Bool :=
  Path.isAbsolute m.workspaceDir && (Path.components m.workspaceDir).all fun
    | .rootDir => true
    | .normal _ => true
    | _ => false

/-- Rules that need no environment; `slots`, when given, is the allowed proxy-slot set. -/
def checkShape (slots : Option (List Slot)) : Except String Unit := do
  bailIf (m.version ≠ manifestVersion) ("manifest: unsupported version " ++ toString m.version)
  bailIf (¬ m.normalDir) "manifest: workspaceDir must be absolute and lexically normal"
  bailIf (m.jwt.publicKeys = []) "manifest: jwt.publicKeys is empty"
  checkPublicKeys 0 m.jwt.publicKeys
  bailIf (Text.trim m.jwt.issuer = [] ∨ Text.trim m.jwt.audience = [])
    "manifest: jwt.issuer and jwt.audience must be non-empty"
  checkGitRef m.repo.revision "repo.revision"
  ifPresent (checkGitRef · "repo.ref") m.gitRef
  checkGitUrl parse m.repo.cloneUrl "repo.cloneUrl"
  ifPresent (fun dotfiles => checkGitUrl parse dotfiles.repoUrl "dotfiles.repoUrl") m.dotfiles
  ifPresent checkPortSessionSecret m.portSessionSecret
  checkForwards slots [] m.forwards
  bailIf (m.session.capAt ≤ m.session.startedAt) "manifest: session.capAt must be after session.startedAt"
  ifPresent checkRestoreShape m.restore
  checkOrigins parse m.allowedOrigins
  bailIf (m.activityIntervalSecs < 10) "manifest: activity.intervalSecs must be >= 10"
  bailIf (m.logs.maxBatch > 200 ∨ m.logs.maxBatch = 0) "manifest: logs.maxBatch must be in 1..=200"
  bailIf (m.logs.maxBatchBytes > 262144 ∨ m.logs.maxBatchBytes = 0)
    "manifest: logs.maxBatchBytes must be in 1..=262144"

def checkRestoreUrl (cfg : Config) (restore : RestoreSpec) : Except String Unit :=
  (checkTarballUrl parse restore.tarballUrl cfg.insecureCookies).mapError fun error => "manifest: " ++ error

def validate (cfg : Config) : Except String Unit := do
  m.checkShape parse (some cfg.proxySlots)
  bailIf (m.workspaceId ≠ cfg.workspaceId)
    ("manifest: workspaceId " ++ (String.ofList m.workspaceId).quote ++ " != ZS_WORKSPACE_ID " ++
      (String.ofList cfg.workspaceId).quote)
  bailIf (m.sandboxName ≠ cfg.sandboxName)
    ("manifest: sandboxName " ++ (String.ofList m.sandboxName).quote ++ " != ZS_SANDBOX_NAME " ++
      (String.ofList cfg.sandboxName).quote)
  bailIf (¬ Path.startsWith m.workspaceDir cfg.workspacesDir ∨
      Path.components m.workspaceDir = Path.components cfg.workspacesDir)
    ("manifest: workspaceDir " ++ String.ofList m.workspaceDir ++ " is not inside " ++ String.ofList cfg.workspacesDir)
  ifPresent (checkRestoreUrl parse cfg) m.restore
  let allowLocal := cfg.insecureCookies || cfg.local
  checkGitUrlScheme parse m.repo.cloneUrl "repo.cloneUrl" allowLocal
  ifPresent (fun dotfiles => checkGitUrlScheme parse dotfiles.repoUrl "dotfiles.repoUrl" allowLocal) m.dotfiles

end Manifest

end

/-! ## What the rules accept -/

@[simp] theorem bailIf_ok {c : Prop} [Decidable c] {message : String} : bailIf c message = .ok () ↔ ¬ c := by
  unfold bailIf
  split
  · next h => exact ⟨nofun, fun hn => absurd h hn⟩
  · next h => exact ⟨fun _ => h, fun _ => rfl⟩

variable {parse : Text → Except String Url}

def PemBlock (pem : Text) : Prop := beginPublicKey <:+: pem ∧ endPublicKey <:+: pem

theorem checkPublicKeys_ok {index : Nat} {pems : List Text} :
    checkPublicKeys index pems = .ok () ↔ ∀ pem ∈ pems, PemBlock pem := by
  induction pems generalizing index with
  | nil => exact ⟨fun _ => nofun, fun _ => rfl⟩
  | cons pem pems ih => rw [checkPublicKeys, check_bind_ok, bailIf_ok, not_not, ih, List.forall_mem_cons]; rfl

theorem checkOrigins_ok {origins : List Text} :
    checkOrigins parse origins = .ok () ↔ ∀ origin ∈ origins, isOrigin parse origin = true := by
  induction origins with
  | nil => exact ⟨fun _ => nofun, fun _ => rfl⟩
  | cons origin origins ih => rw [checkOrigins, check_bind_ok, bailIf_ok, not_not, ih, List.forall_mem_cons]

/-- The forward's port can be forwarded, and its slot is a proxy slot. -/
structure Forward.Allowed (slots : Option (List Slot)) (forward : Forward) : Prop where
  port : forward.port ≠ 0 ∧ forward.port ∉ infraPorts
  slot : ∀ slot, forward.slot = some slot → ∀ known, slots = some known → slot ∈ known

/-- Without a set of slots to compare with, less is asked. -/
theorem Forward.Allowed.anySlot {slots : Option (List Slot)} {forward : Forward} (h : forward.Allowed slots) :
    forward.Allowed none := ⟨h.port, fun _ _ _ => nofun⟩

/-- Every forward is allowed, and no slot stands at two of them or among the seen ones. -/
theorem checkForwards_ok {slots : Option (List Slot)} {seen : List Slot} {forwards : List Forward} :
    checkForwards slots seen forwards = .ok () ↔ (∀ forward ∈ forwards, forward.Allowed slots) ∧
      (forwards.filterMap Forward.slot).Nodup ∧ ∀ slot ∈ forwards.filterMap Forward.slot, slot ∉ seen := by
  induction forwards generalizing seen with
  | nil => exact ⟨fun _ => ⟨nofun, List.nodup_nil, nofun⟩, fun _ => rfl⟩
  | cons forward forwards ih =>
    rw [checkForwards, check_bind_ok, bailIf_ok, not_or, List.forall_mem_cons]
    cases hslot : forward.slot with
    | none =>
      rw [List.filterMap_cons_none hslot]
      show _ ∧ checkForwards slots seen forwards = .ok () ↔ _
      rw [ih]
      constructor
      · rintro ⟨hport, hall, hrest⟩
        exact ⟨⟨⟨hport, fun slot hs => by rw [hslot] at hs; cases hs⟩, hall⟩, hrest⟩
      · rintro ⟨⟨hf, hall⟩, hrest⟩
        exact ⟨hf.port, hall, hrest⟩
    | some slot =>
      rw [List.filterMap_cons_some hslot, List.nodup_cons, List.forall_mem_cons]
      show _ ∧ (do bailIf _ _; bailIf _ _; checkForwards slots (slot :: seen) forwards) = .ok () ↔ _
      rw [check_bind_ok, check_bind_ok, bailIf_ok, bailIf_ok, ih]
      constructor
      · rintro ⟨hport, hknown, hseen, hall, hnodup, hrest⟩
        refine ⟨⟨⟨hport, fun s hs known hk => ?_⟩, hall⟩, ⟨fun hmem => ?_, hnodup⟩, hseen, fun s hs => ?_⟩
        · rw [hslot] at hs
          cases hs
          subst hk
          simpa using hknown
        · exact hrest slot hmem (List.mem_cons_self ..)
        · exact fun hmem => hrest s hs (List.mem_cons_of_mem _ hmem)
      · rintro ⟨⟨hf, hall⟩, ⟨hnotin, hnodup⟩, hseen, hrest⟩
        refine ⟨hf.port, ?_, hseen, hall, hnodup, fun s hs hmem => ?_⟩
        · cases slots with
          | none => simp
          | some known => simpa using hf.slot slot hslot known rfl
        · rcases List.mem_cons.1 hmem with rfl | hmem
          · exact hnotin hs
          · exact hrest s hs hmem

theorem checkGitUrlShape_ok {value : Text} {what : String} {url : Url} :
    checkGitUrlShape parse value what = .ok url ↔ ¬ ['-'] <+: value ∧ isPrintable value = true ∧
      parse value = .ok url ∧
      if url.scheme = Url.https ∨ url.scheme = Url.http then url.host ≠ none else url.scheme = "file".toList := by
  rw [checkGitUrlShape, check_bind_ok, check_bind_ok, bailIf_ok, bailIf_ok, not_not, bind_ok]
  refine and_congr_right fun _ => and_congr_right fun _ => ?_
  constructor
  · rintro ⟨parsed, hparse, h⟩
    split at h
    · next hscheme =>
      obtain ⟨hhost, h⟩ := check_bind_ok.1 h
      cases h
      rw [if_pos hscheme]
      exact ⟨mapError_ok.1 hparse, bailIf_ok.1 hhost⟩
    · next hscheme =>
      obtain ⟨hfile, h⟩ := check_bind_ok.1 h
      cases h
      rw [if_neg hscheme]
      exact ⟨mapError_ok.1 hparse, not_not.1 (bailIf_ok.1 hfile)⟩
  · rintro ⟨hparse, hurl⟩
    refine ⟨url, mapError_ok.2 hparse, ?_⟩
    split
    · next hscheme =>
      rw [if_pos hscheme] at hurl
      exact check_bind_ok.2 ⟨bailIf_ok.2 hurl, rfl⟩
    · next hscheme =>
      rw [if_neg hscheme] at hurl
      exact check_bind_ok.2 ⟨bailIf_ok.2 (not_not.2 hurl), rfl⟩

/-- An `https` URL git may be given, in production. -/
structure HttpsUrl (parse : Text → Except String Url) (value : Text) : Prop where
  dash : ¬ ['-'] <+: value
  printable : isPrintable value = true
  url : ∃ url, parse value = .ok url ∧ url.scheme = Url.https ∧ url.host ≠ none

theorem checkGitUrlScheme_ok {value : Text} {what : String} :
    checkGitUrlScheme parse value what false = .ok () ↔ HttpsUrl parse value := by
  rw [checkGitUrlScheme, bind_ok]
  constructor
  · rintro ⟨url, hshape, hscheme⟩
    obtain ⟨hdash, hprint, hparse, hhost⟩ := checkGitUrlShape_ok.1 hshape
    have hscheme : url.scheme = Url.https := by simpa using hscheme
    rw [if_pos (.inl hscheme)] at hhost
    exact ⟨hdash, hprint, url, hparse, hscheme, hhost⟩
  · rintro ⟨hdash, hprint, url, hparse, hscheme, hhost⟩
    refine ⟨url, checkGitUrlShape_ok.2 ⟨hdash, hprint, hparse, ?_⟩, ?_⟩
    · rw [if_pos (.inl hscheme)]
      exact hhost
    · exact bailIf_ok.2 fun h => h.1 hscheme

/-- Such a URL has the shape. -/
theorem HttpsUrl.shape {value : Text} (h : HttpsUrl parse value) (what : String) :
    checkGitUrl parse value what = .ok () := by
  obtain ⟨url, hparse, hscheme, hhost⟩ := h.url
  have hurl : checkGitUrlShape parse value what = .ok url := by
    refine checkGitUrlShape_ok.2 ⟨h.dash, h.printable, hparse, ?_⟩
    rw [if_pos (.inl hscheme)]
    exact hhost
  rw [checkGitUrl, hurl]
  rfl

theorem ifPresent_ok {α : Type} {check : α → Except String Unit} {o : Option α} :
    ifPresent check o = .ok () ↔ ∀ a, o = some a → check a = .ok () := by
  cases o with
  | none => exact ⟨fun _ => nofun, fun _ => rfl⟩
  | some a => exact ⟨fun h _ ha => Option.some.inj ha ▸ h, fun h => h a rfl⟩

theorem checkRestoreShape_ok {restore : RestoreSpec} : checkRestoreShape restore = .ok () ↔
    "https://".toList <+: restore.tarballUrl ∨ "http://".toList <+: restore.tarballUrl := by
  rw [checkRestoreShape, bailIf_ok, not_not]

/-- What a manifest must be to pass the rules that need no environment. -/
structure Manifest.WellShaped (parse : Text → Except String Url) (slots : Option (List Slot)) (m : Manifest) : Prop where
  version : m.version = manifestVersion
  dir : m.normalDir = true
  keys : m.jwt.publicKeys ≠ []
  pems : ∀ pem ∈ m.jwt.publicKeys, PemBlock pem
  names : Text.trim m.jwt.issuer ≠ [] ∧ Text.trim m.jwt.audience ≠ []
  revision : checkGitRef m.repo.revision "repo.revision" = .ok ()
  gitRef : ∀ gitRef, m.gitRef = some gitRef → checkGitRef gitRef "repo.ref" = .ok ()
  cloneUrl : checkGitUrl parse m.repo.cloneUrl "repo.cloneUrl" = .ok ()
  dotfiles : ∀ dotfiles, m.dotfiles = some dotfiles → checkGitUrl parse dotfiles.repoUrl "dotfiles.repoUrl" = .ok ()
  secret : ∀ secret, m.portSessionSecret = some secret → checkPortSessionSecret secret = .ok ()
  forwards : ∀ forward ∈ m.forwards, forward.Allowed slots
  slots : (m.forwards.filterMap Forward.slot).Nodup
  session : m.session.startedAt < m.session.capAt
  restore : ∀ restore, m.restore = some restore →
    "https://".toList <+: restore.tarballUrl ∨ "http://".toList <+: restore.tarballUrl
  origins : ∀ origin ∈ m.allowedOrigins, isOrigin parse origin = true
  activity : 10 ≤ m.activityIntervalSecs
  batch : 0 < m.logs.maxBatch ∧ m.logs.maxBatch ≤ 200
  batchBytes : 0 < m.logs.maxBatchBytes ∧ m.logs.maxBatchBytes ≤ 262144

theorem Manifest.checkShape_ok {slots : Option (List Slot)} {m : Manifest} :
    m.checkShape parse slots = .ok () ↔ m.WellShaped parse slots := by
  unfold Manifest.checkShape
  simp only [check_bind_ok, bailIf_ok, ifPresent_ok, checkPublicKeys_ok, checkForwards_ok, checkOrigins_ok,
    checkRestoreShape_ok, not_not, not_or, Nat.not_le, Nat.not_lt]
  constructor
  · rintro ⟨hversion, hdir, hkeys, hpems, hnames, hrevision, hgitRef, hcloneUrl, hdotfiles, hsecret, ⟨hallowed, hnodup, -⟩,
      hsession, hrestore, horigins, hactivity, hbatch, hbytes⟩
    exact ⟨hversion, hdir, hkeys, hpems, hnames, hrevision, hgitRef, hcloneUrl, hdotfiles, hsecret, hallowed, hnodup,
      hsession, hrestore, horigins, hactivity, by omega, by omega⟩
  · intro h
    have hbatch := h.batch
    have hbytes := h.batchBytes
    exact ⟨h.version, h.dir, h.keys, h.pems, h.names, h.revision, h.gitRef, h.cloneUrl, h.dotfiles, h.secret,
      ⟨h.forwards, h.slots, fun _ _ => List.not_mem_nil⟩, h.session, h.restore, h.origins, h.activity, by omega, by omega⟩

/-- The supervisor's rules in production. -/
structure Config.Production (cfg : Config) : Prop where
  secure : cfg.insecureCookies = false
  remote : cfg.local = false
  slots : cfg.proxySlots = Supervisor.proxySlots
  dir : cfg.workspacesDir = defaultWorkspacesDir

/-- What a well-shaped manifest must be besides, in production. -/
structure Manifest.Matches (parse : Text → Except String Url) (cfg : Config) (m : Manifest) : Prop where
  workspaceId : m.workspaceId = cfg.workspaceId
  sandboxName : m.sandboxName = cfg.sandboxName
  inside : Path.startsWith m.workspaceDir cfg.workspacesDir = true ∧
    Path.components m.workspaceDir ≠ Path.components cfg.workspacesDir
  restore : ∀ restore, m.restore = some restore → checkTarballUrl parse restore.tarballUrl false = .ok ()
  cloneUrl : HttpsUrl parse m.repo.cloneUrl
  dotfiles : ∀ dotfiles, m.dotfiles = some dotfiles → HttpsUrl parse dotfiles.repoUrl

theorem Manifest.validate_ok {cfg : Config} (hcfg : cfg.Production) {m : Manifest} :
    m.validate parse cfg = .ok () ↔ m.WellShaped parse (some cfg.proxySlots) ∧ m.Matches parse cfg := by
  unfold Manifest.validate
  simp only [check_bind_ok, bailIf_ok, ifPresent_ok, Manifest.checkShape_ok, checkRestoreUrl, mapError_ok, hcfg.secure,
    hcfg.remote, Bool.or_self, checkGitUrlScheme_ok, not_not, not_or]
  constructor
  · rintro ⟨hshape, hid, hname, hinside, hrestore, hclone, hdotfiles⟩
    exact ⟨hshape, hid, hname, hinside, hrestore, hclone, hdotfiles⟩
  · rintro ⟨hshape, h⟩
    exact ⟨hshape, h.workspaceId, h.sandboxName, h.inside, h.restore, h.cloneUrl, h.dotfiles⟩

end Zedspaces.Supervisor
