/-
Whether a sandbox gets past its manifest. In production, whatever the requests, the manifest of a workspace is refused
for two things alone: a forward row whose port is no port, which only an activity report can have brought in, and a
dotfiles document whose URL or command the schemas let through and the supervisor does not (`accepted_iff`). A workspace
whose requests bring in neither boots (`manifest_accepted`); a report of port 0 keeps its workspace from ever booting
again (`manifest_refused`).
-/
import Zedspaces.Web.ForwardRows
import Zedspaces.Web.ManifestFields

namespace Zedspaces.Web

open Lib
open Supervisor (HttpsUrl isPrintable checkGitRef)

variable {d : Deployment} {s : ManifestState}

/-! ## What the parts decode to -/

/-- A URL that the supervisor can hand to git: characters only, none of them white space or a control character. -/
def CleanUrl (url : Utf16) : Prop := ∃ t, url.toText = some t ∧ isPrintable t = true

/-- Dotfiles, if there are any to install, with such a URL and a command of characters only. -/
def DotfilesDoc.Clean (doc : DotfilesDoc) : Prop :=
  ∀ url, doc.repoUrl = some url → url ≠ [] →
    CleanUrl url ∧ ∀ command, doc.installCommand = some command → command.toText.isSome = true

def UserDocs.Clean (docs : UserDocs) : Prop := ∀ doc, docs.dotfiles = some doc → doc.Clean

/-- The stored repository URL is one the route accepts. -/
def UserDocs.Https (d : Deployment) (docs : UserDocs) : Prop :=
  ∀ doc url, docs.dotfiles = some doc → doc.repoUrl = some url → assertHttpsRepoUrl d url = true

theorem httpsUrl_of_clean (hstd : Url.Standard d.parse) {url : Utf16} {t : Text} (hurl : assertHttpsRepoUrl d url = true)
    (ht : url.toText = some t) (hprint : isPrintable t = true) : HttpsUrl d.parse t := by
  unfold assertHttpsRepoUrl at hurl
  rw [Utf16.toTextLossy_of_toText ht] at hurl
  split at hurl
  · next parsed hparse =>
    have hscheme : parsed.scheme = Url.https := of_decide_eq_true hurl
    obtain ⟨host, hhost, -⟩ := hstd.host t parsed hparse (.inl hscheme)
    refine ⟨?_, hprint, parsed, hparse, hscheme, by rw [hhost]; exact Option.some_ne_none _⟩
    rintro ⟨rest, rfl⟩
    exact hstd.dash rest parsed hparse
  · cases hurl

/-- The dotfiles are read and pass their rule exactly if they are clean. -/
theorem dotfiles_clean_iff (hstd : Url.Standard d.parse) {docs : UserDocs} (hdocs : docs.Https d) :
    (∃ spec, decodeOption DotfilesBlock.decode (dotfilesBlock docs) = some spec ∧
      ∀ dotfiles, spec = some dotfiles → HttpsUrl d.parse dotfiles.repoUrl) ↔ docs.Clean := by
  unfold dotfilesBlock UserDocs.Clean DotfilesDoc.Clean
  cases hdoc : docs.dotfiles with
  | none => exact ⟨fun _ => nofun, fun _ => ⟨none, rfl, nofun⟩⟩
  | some doc =>
    obtain ⟨repoUrl, installCommand⟩ := doc
    cases repoUrl with
    | none =>
      refine ⟨fun _ doc' h url hurl => ?_, fun _ => ⟨none, rfl, nofun⟩⟩
      cases h
      cases hurl
    | some url =>
      by_cases hempty : url = []
      · refine ⟨fun _ doc' h url' hurl hne => ?_, fun _ => ⟨none, by simp [hempty, decodeOption], nofun⟩⟩
        cases h
        cases hurl
        exact absurd hempty hne
      · simp only [Option.bind_some, if_neg hempty, decodeOption]
        have hhttps := hdocs _ url hdoc rfl
        constructor
        · rintro ⟨spec, hspec, hall⟩ _ ⟨⟩ _ ⟨⟩ -
          obtain ⟨dotfiles, hdec, rfl⟩ := Option.map_eq_some_iff.1 hspec
          unfold DotfilesBlock.decode at hdec
          cases ht : url.toText with
          | none =>
            rw [ht] at hdec
            cases hdec
          | some t =>
            rw [ht] at hdec
            cases installCommand with
            | none =>
              obtain rfl := Option.some.inj hdec
              exact ⟨⟨t, ht, (hall _ rfl).printable⟩, nofun⟩
            | some command =>
              obtain ⟨text, htext, rfl⟩ := Option.map_eq_some_iff.1 hdec
              refine ⟨⟨t, ht, (hall _ rfl).printable⟩, ?_⟩
              rintro _ ⟨⟩
              rw [htext]
              rfl
        · intro h
          obtain ⟨⟨t, ht, hprint⟩, hcommand⟩ := h _ rfl url rfl hempty
          have hurl := httpsUrl_of_clean hstd hhttps ht hprint
          unfold DotfilesBlock.decode
          rw [ht]
          cases installCommand with
          | none => exact ⟨some ⟨t, none⟩, rfl, by rintro _ ⟨⟩; exact hurl⟩
          | some command =>
            obtain ⟨text, htext⟩ := Option.isSome_iff_exists.1 (hcommand command rfl)
            refine ⟨some ⟨t, some text⟩, ?_, by rintro _ ⟨⟩; exact hurl⟩
            simp only [htext]
            rfl

/-- Where a list of views is read, each of its views is. -/
theorem decodeForwards_mem {views : List ForwardView} {forwards : List Supervisor.Forward}
    (h : decodeForwards views = some forwards) {view : ForwardView} (hv : view ∈ views) :
    ∃ forward ∈ forwards, view.decode = some forward := by
  induction views generalizing forwards with
  | nil => cases hv
  | cons v views ih =>
    rw [decodeForwards, List.mapM_cons] at h
    obtain ⟨f, hf, h⟩ := Option.bind_eq_some_iff.1 h
    obtain ⟨rest, hrest, h⟩ := Option.bind_eq_some_iff.1 h
    obtain rfl := Option.some.inj h
    rcases List.mem_cons.1 hv with rfl | hv
    · exact ⟨f, List.mem_cons_self .., hf⟩
    · obtain ⟨forward, hmem, hdec⟩ := ih hrest hv
      exact ⟨forward, List.mem_cons_of_mem _ hmem, hdec⟩

/-- The rows a read list of forwards comes from have ports, where none of the forwards is for port 0. -/
theorem portsOk_of_decoded {db : ForwardsDb} {forwards : List Supervisor.Forward}
    (h : decodeForwards (forwardViews db) = some forwards) (hports : ∀ forward ∈ forwards, forward.port ≠ 0) :
    PortsOk db.rows := by
  intro row hrow
  have hview : toForwardView row ∈ forwardViews db :=
    List.mem_map_of_mem ((List.mem_insertionSort _).2 hrow)
  obtain ⟨forward, hmem, hdec⟩ := decodeForwards_mem h hview
  unfold ForwardView.decode at hdec
  split at hdec
  · next hrange =>
    obtain rfl := Option.some.inj hdec
    have hne : row.port.toNat ≠ 0 := hports _ hmem
    have hlow : (0 : Int) ≤ row.port := hrange.1
    have hhigh : row.port ≤ 65535 := hrange.2.1
    omega
  · cases hdec

/-! ## What every request keeps -/

structure Github.Standard (g : Github) : Prop where
  named : ∀ owner name repo, g.repo owner name = some repo → repo.Named
  branch : ∀ owner name branch sha, g.branch owner name branch = some sha → IsSha sha
  commit : ∀ owner name ref sha, g.commit owner name ref = some sha → IsSha sha
  pull : ∀ owner name number head, g.pull owner name number = some head → IsSha head.2

/-- A deployment in production. -/
structure Deployment.Production (d : Deployment) : Prop where
  url : Url.Standard d.parse
  github : d.github.Standard
  backend : d.env.backend = .vercel
  address : ∃ base url, controlApiBase d.env = some base ∧ d.parse base.toList = .ok url ∧ url.scheme = Url.https
  cap : 0 < d.env.sessionCapMs ∧ d.env.sessionCapMs < 2 ^ 53
  issuer : Text.trim d.env.jwtIssuer.toList ≠ []
  keys : d.publicKeyPems ≠ [] ∧ ∀ pem ∈ d.publicKeyPems, Supervisor.PemBlock pem
  blob : Presigned d.parse d.presignGet

/-- A creation names no branch that the supervisor's rule refuses. -/
def CreateRequest.BranchAllowed (d : Deployment) (req : CreateRequest) : Prop :=
  ∀ repo, d.github.repo req.owner req.name = some repo → ∀ branch,
    req.ref.getD (.branch repo.defaultBranch) = .branch branch → checkGitRef branch "repo.revision" = .ok ()

/-- The ref columns of a workspace: a commit, pinned by a pull request's ref or standing on an allowed branch. -/
structure ManifestWorkspace.RefsOk (ws : ManifestWorkspace) : Prop where
  revision : ∃ sha, ws.revision = some sha ∧ IsSha sha
  gitRef : ∀ gitRef, ws.gitRef = some gitRef → ∃ number, gitRef = pullRef number
  branch : ws.gitRef = none → ∀ branch, ws.branch = some branch → checkGitRef branch "repo.revision" = .ok ()

/-- What holds of every state. -/
structure ManifestState.Ok (d : Deployment) (s : ManifestState) : Prop where
  rows : s.forwards.Keeps fun port => isInfraPort d.env port = false
  repo : s.repo.Named
  refs : s.workspace.RefsOk
  audience : ∃ generation, s.workspace.audience = newSandboxName d s.workspace.id generation
  idle : s.workspace.idleMinutes ≤ 240
  docs : s.docs.Https d

theorem UserDocs.Https.empty : UserDocs.empty.Https d := by
  rintro doc url hdoc -
  cases hdoc

theorem UserDocs.Https.apply {docs : UserDocs} (h : docs.Https d) (request : DocRequest) :
    (docs.apply d request).Https d := by
  cases request with
  | settings content => exact h
  | keymap content => exact h
  | dotfiles input =>
    simp only [UserDocs.apply]
    split
    · next doc hput =>
      rintro _ url ⟨⟩ hurl
      unfold putDotfiles at hput
      split at hput
      · next hnone =>
        split at hput
        · cases hput
          rw [hnone] at hurl
          cases hurl
        · cases hput
      · split at hput
        · cases hput
        · split at hput
          · next hok =>
            cases hput
            cases hurl
            exact hok.2
          · cases hput
    · exact h

theorem UserDocs.Https.after {docs : UserDocs} (h : docs.Https d) (requests : List DocRequest) :
    (docs.after d requests).Https d := by
  unfold UserDocs.after
  induction requests generalizing docs with
  | nil => exact h
  | cons request requests ih => exact ih (h.apply request)

/-- A creation that succeeds starts from refs in order. -/
theorem createPublicWorkspace_ok (hd : d.Production) {docs : UserDocs} (hdocs : docs.Https d) {req : CreateRequest}
    (hbranch : req.BranchAllowed d) (h : createPublicWorkspace d docs req = some s) : s.Ok d := by
  obtain ⟨repo, hrepo, h⟩ := Option.bind_eq_some_iff.1 h
  obtain ⟨ref, href, h⟩ := Option.bind_eq_some_iff.1 h
  obtain rfl := Option.some.inj h
  have hrefs : (req.row d ref).RefsOk := by
    unfold loadRef at href
    split at href
    · next number _ =>
      obtain ⟨head, hhead, rfl⟩ := Option.map_eq_some_iff.1 href
      refine ⟨⟨_, rfl, hd.github.pull _ _ _ _ hhead⟩, ?_, nofun⟩
      rintro _ ⟨⟩
      exact ⟨number, rfl⟩
    · obtain ⟨sha, hsha, rfl⟩ := Option.map_eq_some_iff.1 href
      exact ⟨⟨_, rfl, hd.github.commit _ _ _ _ hsha⟩, nofun, fun _ => nofun⟩
    · next name heq =>
      obtain ⟨sha, hsha, rfl⟩ := Option.map_eq_some_iff.1 href
      refine ⟨⟨_, rfl, hd.github.branch _ _ _ _ hsha⟩, nofun, ?_⟩
      rintro - _ ⟨⟩
      exact hbranch repo hrepo name heq
  refine ⟨⟨RowsOk.nil, nofun⟩, hd.github.named _ _ _ hrepo, hrefs, ⟨1, rfl⟩, ?_, hdocs⟩
  show idleMinutesFor req.idleMinutes ≤ 240
  unfold idleMinutesFor
  omega

theorem ManifestState.Ok.apply (hd : d.Production) (h : s.Ok d) (request : ManifestRequest) :
    (s.apply d request).Ok d := by
  have hrefs : ∀ ws : ManifestWorkspace, ws.revision = s.workspace.revision → ws.gitRef = s.workspace.gitRef →
      ws.branch = s.workspace.branch → ws.RefsOk := by
    intro ws hrevision hgitRef hbranch
    exact ⟨by rw [hrevision]; exact h.refs.revision, by rw [hgitRef]; exact h.refs.gitRef,
      by rw [hgitRef, hbranch]; exact h.refs.branch⟩
  cases request with
  | registerRepo owner name =>
    refine ⟨h.rows, ?_, h.refs, h.audience, h.idle, h.docs⟩
    show ((d.github.repo owner name).getD s.repo).Named
    cases hrepo : d.github.repo owner name with
    | none => exact h.repo
    | some repo => exact hd.github.named _ _ _ hrepo
  | docs request => exact ⟨h.rows, h.repo, h.refs, h.audience, h.idle, h.docs.apply request⟩
  | forward call =>
    have hlists : call.Lists d.env fun port => isInfraPort d.env port = false := by
      cases call with
      | sync ws listening now => exact fun _ _ _ _ hinfra => hinfra
      | create ws request now => trivial
      | remove port now => trivial
    have hrows := apply_keeps (fun _ hport => (assertForwardablePort_eq_ok hport).2) h.rows call hlists
    exact ⟨hrows, h.repo, h.refs, h.audience, h.idle, h.docs⟩
  | patch idleMinutes =>
    simp only [ManifestState.apply]
    split
    · next hrange => exact ⟨h.rows, h.repo, hrefs _ rfl rfl rfl, h.audience, hrange.2, h.docs⟩
    · exact h
  | extensions installed => exact ⟨h.rows, h.repo, hrefs _ rfl rfl rfl, h.audience, h.idle, h.docs⟩
  | recordSandboxSession sessionId restoreKind now =>
    exact ⟨h.rows, h.repo, hrefs _ rfl rfl rfl, h.audience, h.idle, h.docs⟩
  | markStopped now => exact ⟨h.rows, h.repo, hrefs _ rfl rfl rfl, h.audience, h.idle, h.docs⟩
  | bumpGeneration blobPathname serverBuild clientBuild =>
    exact ⟨h.rows, h.repo, hrefs _ rfl rfl rfl, ⟨s.workspace.sandboxGeneration + 1, rfl⟩, h.idle, h.docs⟩
  | clearRestore => exact ⟨h.rows, h.repo, hrefs _ rfl rfl rfl, h.audience, h.idle, h.docs⟩

theorem ManifestState.Ok.after (hd : d.Production) (h : s.Ok d) (requests : List ManifestRequest) :
    (s.after d requests).Ok d := by
  unfold ManifestState.after
  induction requests generalizing s with
  | nil => exact h
  | cons request requests ih => exact ih (h.apply hd request)

/-! ## What clean requests keep -/

def DocRequest.Clean (d : Deployment) : DocRequest → Prop
  | .dotfiles input => ∀ doc, putDotfiles d input = some doc → doc.Clean
  | _ => True

/-- An activity report lists ports only, and a dotfiles document that is accepted is clean. -/
def ManifestRequest.Clean (d : Deployment) : ManifestRequest → Prop
  | .forward call => call.ListsPorts
  | .docs request => request.Clean d
  | _ => True

structure ManifestState.Clean (s : ManifestState) : Prop where
  ports : PortsOk s.forwards.rows
  docs : s.docs.Clean

theorem UserDocs.Clean.empty : UserDocs.empty.Clean := by
  rintro doc hdoc
  cases hdoc

theorem UserDocs.Clean.apply {docs : UserDocs} (h : docs.Clean) {request : DocRequest} (hreq : request.Clean d) :
    (docs.apply d request).Clean := by
  cases request with
  | settings content => exact h
  | keymap content => exact h
  | dotfiles input =>
    simp only [UserDocs.apply]
    split
    · next doc hput =>
      rintro _ ⟨⟩
      exact hreq doc hput
    · exact h

theorem UserDocs.Clean.after {docs : UserDocs} (h : docs.Clean) {requests : List DocRequest}
    (hreqs : ∀ request ∈ requests, request.Clean d) : (docs.after d requests).Clean := by
  unfold UserDocs.after
  induction requests generalizing docs with
  | nil => exact h
  | cons request requests ih =>
    exact ih (h.apply (hreqs request (List.mem_cons_self ..))) fun r hr => hreqs r (List.mem_cons_of_mem _ hr)

/-- A new workspace has no forwards. -/
theorem createPublicWorkspace_clean {docs : UserDocs} (hdocs : docs.Clean) {req : CreateRequest}
    (h : createPublicWorkspace d docs req = some s) : s.Clean := by
  obtain ⟨repo, -, h⟩ := Option.bind_eq_some_iff.1 h
  obtain ⟨ref, -, h⟩ := Option.bind_eq_some_iff.1 h
  obtain rfl := Option.some.inj h
  refine ⟨?_, hdocs⟩
  rintro row hrow
  cases hrow

theorem ManifestState.Clean.apply (hok : s.Ok d) (h : s.Clean) {request : ManifestRequest} (hreq : request.Clean d) :
    (s.apply d request).Clean := by
  cases request with
  | docs request => exact ⟨h.ports, h.docs.apply hreq⟩
  | forward call =>
    have hP : Forwardable d.env fun port => 1 ≤ port ∧ port ≤ 65535 :=
      fun _ hport => (assertForwardablePort_eq_ok hport).1
    have hrows := apply_keeps hP ⟨hok.rows.1, h.ports⟩ call (ForwardCall.ListsPorts.lists hreq)
    exact ⟨hrows.2, h.docs⟩
  | patch idleMinutes =>
    simp only [ManifestState.apply]
    split
    · exact ⟨h.ports, h.docs⟩
    · exact h
  | registerRepo owner name => exact ⟨h.ports, h.docs⟩
  | extensions installed => exact ⟨h.ports, h.docs⟩
  | recordSandboxSession sessionId restoreKind now => exact ⟨h.ports, h.docs⟩
  | markStopped now => exact ⟨h.ports, h.docs⟩
  | bumpGeneration blobPathname serverBuild clientBuild => exact ⟨h.ports, h.docs⟩
  | clearRestore => exact ⟨h.ports, h.docs⟩

theorem ManifestState.Clean.after (hd : d.Production) (hok : s.Ok d) (h : s.Clean) {requests : List ManifestRequest}
    (hreqs : ∀ request ∈ requests, request.Clean d) : (s.after d requests).Clean := by
  unfold ManifestState.after
  induction requests generalizing s with
  | nil => exact h
  | cons request requests ih =>
    exact ih (hok.apply hd request) (h.apply hok (hreqs request (List.mem_cons_self ..)))
      fun r hr => hreqs r (List.mem_cons_of_mem _ hr)

/-! ## What is accepted -/

theorem parseManifest_ok {doc : SandboxManifest} {m : Supervisor.Manifest} :
    parseManifest d doc = .ok m ↔ doc.decode = some m ∧ m.WellShaped d.parse none := by
  unfold parseManifest
  split
  · next hnone =>
    rw [hnone]
    exact ⟨nofun, nofun⟩
  · next m' hsome =>
    rw [hsome, check_bind_ok, Supervisor.Manifest.checkShape_ok]
    constructor
    · rintro ⟨hshape, ⟨⟩⟩
      exact ⟨rfl, hshape⟩
    · rintro ⟨⟨⟩, hshape⟩
      exact ⟨hshape, rfl⟩

theorem decode_eq_some {doc : SandboxManifest} {m : Supervisor.Manifest} : doc.decode = some m ↔
    ∃ dotfiles forwards session, decodeOption DotfilesBlock.decode doc.dotfiles = some dotfiles ∧
      decodeForwards doc.forwards = some forwards ∧ doc.session.decode = some session ∧ doc.idleMinutes < 2 ^ 32 ∧
      doc.withParts dotfiles forwards session = m := by
  unfold SandboxManifest.decode
  constructor
  · intro h
    obtain ⟨dotfiles, hdotfiles, h⟩ := Option.bind_eq_some_iff.1 h
    obtain ⟨forwards, hforwards, h⟩ := Option.bind_eq_some_iff.1 h
    obtain ⟨session, hsession, h⟩ := Option.bind_eq_some_iff.1 h
    split at h
    · next hidle => exact ⟨dotfiles, forwards, session, hdotfiles, hforwards, hsession, hidle, Option.some.inj h⟩
    · cases h
  · rintro ⟨dotfiles, forwards, session, hdotfiles, hforwards, hsession, hidle, rfl⟩
    rw [hdotfiles, hforwards, hsession]
    exact if_pos hidle

/-- The supervisor's reserved ports are the control plane's too. -/
theorem isInfraPort_of_mem (e : Env) {port : Supervisor.Port} (h : port ∈ Supervisor.infraPorts) :
    isInfraPort e port = true := by
  have hall : ∀ port ∈ Supervisor.infraPorts, (((port : Int) ∈ ([22, 53, 111, 23456] : List Int)) ||
      (infraPortMin ≤ port && (port : Int) ≤ infraPortMax)) = true := by decide
  unfold isInfraPort
  rw [hall port h, Bool.true_or, Bool.true_or, Bool.true_or]

/-- The rows as the supervisor reads them: allowed forwards, on slots of their own. -/
theorem forwards_allowed (hs : s.Ok d) (hports : PortsOk s.forwards.rows) : ∃ forwards,
    decodeForwards (forwardViews s.forwards) = some forwards ∧
      (∀ forward ∈ forwards, forward.Allowed (some Supervisor.proxySlots)) ∧
      (forwards.filterMap Supervisor.Forward.slot).Nodup := by
  obtain ⟨sorted, hperm, hdec⟩ := decodeForwards_views ⟨hs.rows.1, hports⟩
  refine ⟨_, hdec, ?_, ?_⟩
  · intro forward hmem
    obtain ⟨row, hrow, rfl⟩ := List.mem_map.1 hmem
    have hrow := hperm.mem_iff.1 hrow
    have hport := hports row hrow
    have hnat : ((row.port.toNat : Nat) : Int) = row.port := Int.toNat_of_nonneg (by omega)
    refine ⟨⟨?_, fun hinfra => ?_⟩, fun slot hslot known hknown => ?_⟩
    · show row.port.toNat ≠ 0
      omega
    · have hcovered := isInfraPort_of_mem d.env hinfra
      have hfree : isInfraPort d.env row.port = false := hs.rows.2 row hrow
      rw [show ((row.decoded.port : Nat) : Int) = row.port from hnat, hfree] at hcovered
      cases hcovered
    · obtain ⟨slot', hmem', hslot'⟩ := hs.rows.1.slot row hrow
      cases hslot'.symm.trans hslot
      cases hknown
      exact hmem'
  · rw [List.filterMap_map]
    exact (hperm.filterMap ForwardRow.slot).nodup_iff.2 hs.rows.1.unique

theorem session_decode (hd : d.Production) (ws : ManifestWorkspace) : ∃ session : Supervisor.SessionSpec,
    (sessionBlock d ws).decode = some session ∧ session.startedAt < session.capAt := by
  have hcap := hd.cap
  have hle := (ws.sessionStartedAt.getD ws.createdAt).le
  have hstart : decodeU64 (sessionBlock d ws).startedAt = some (ws.sessionStartedAt.getD ws.createdAt).ms :=
    if_pos ⟨by show (0 : Int) ≤ ((ws.sessionStartedAt.getD ws.createdAt).ms : Int); omega,
      by show ((ws.sessionStartedAt.getD ws.createdAt).ms : Int) < 2 ^ 64; omega⟩
  have hend : decodeU64 (sessionBlock d ws).capAt = some (sessionBlock d ws).capAt.toNat :=
    if_pos ⟨by show (0 : Int) ≤ ((ws.sessionStartedAt.getD ws.createdAt).ms : Int) + d.env.sessionCapMs; omega,
      by show ((ws.sessionStartedAt.getD ws.createdAt).ms : Int) + d.env.sessionCapMs < 2 ^ 64; omega⟩
  refine ⟨⟨(sessionBlock d ws).id, (ws.sessionStartedAt.getD ws.createdAt).ms, (sessionBlock d ws).capAt.toNat,
    (sessionBlock d ws).resumed⟩, ?_, ?_⟩
  · rw [SessionBlock.decode, hstart, hend]
    rfl
  · show (ws.sessionStartedAt.getD ws.createdAt).ms <
      ((ws.sessionStartedAt.getD ws.createdAt).ms + d.env.sessionCapMs : Int).toNat
    omega

/-- The archive's URL is a presigned one. -/
theorem restoreBlock_url {ws : ManifestWorkspace} {block : RestoreBlock} (h : restoreBlock d ws = some block) :
    ∃ pathname, block.tarballUrl = d.presignGet pathname := by
  unfold restoreBlock at h
  split at h
  · next pathname _ =>
    split at h
    · cases h
      exact ⟨pathname, rfl⟩
    · cases h
  · cases h

theorem sandboxName_visible (id : Text) (generation : Nat) : Text.trim (newSandboxName d id generation) ≠ [] := by
  obtain ⟨t, ht⟩ : ∃ t, newSandboxName d id generation = 's' :: t := ⟨_, rfl⟩
  rw [ht]
  exact Text.trim_ne_nil (by decide)

theorem revision_ref {ws : ManifestWorkspace} (h : ws.RefsOk) (repo : Repo) :
    checkGitRef (manifestRevision ws repo) "repo.revision" = .ok () := by
  obtain ⟨sha, hsha, hok⟩ := h.revision
  unfold manifestRevision
  split
  · rw [hsha]
    exact hok.ref _
  · next hattached =>
    rw [not_or] at hattached
    obtain ⟨branch, hbranch⟩ := Option.ne_none_iff_exists'.1 hattached.2
    have hgitRef : ws.gitRef = none := Option.not_isSome_iff_eq_none.1 hattached.1
    rw [hbranch]
    exact h.branch hgitRef branch hbranch

section
variable {origin : Text} {dotfiles : Option Supervisor.DotfilesSpec} {forwards : List Supervisor.Forward}
  {session : Supervisor.SessionSpec}

/-- Only the dotfiles and the forwards of a manifest have to be asked about. -/
theorem manifest_wellShaped (hd : d.Production) (hs : s.Ok d) (horigin : Supervisor.isOrigin d.parse origin = true)
    {slots : Option (List Supervisor.Slot)} (hdotfiles : ∀ spec, dotfiles = some spec → HttpsUrl d.parse spec.repoUrl)
    (hforwards : ∀ forward ∈ forwards, forward.Allowed slots)
    (hslots : (forwards.filterMap Supervisor.Forward.slot).Nodup) (hsession : session.startedAt < session.capAt) :
    ((manifestOf d s origin).withParts dotfiles forwards session).WellShaped d.parse slots where
  version := rfl
  dir := by
    have hcomponents := workspaceDir_components hs.repo
    show (_ && (Path.components ("/workspaces/".toList ++ s.repo.name)).all _) = true
    rw [hcomponents]
    rfl
  keys := hd.keys.1
  pems := hd.keys.2
  names := by
    obtain ⟨generation, haudience⟩ := hs.audience
    refine ⟨hd.issuer, ?_⟩
    show Text.trim s.workspace.audience ≠ []
    rw [haudience]
    exact sandboxName_visible _ _
  revision := revision_ref hs.refs s.repo
  gitRef gitRef hgitRef := by
    have hsome := (Option.filter_eq_some_iff.1 (Option.filter_eq_some_iff.1 hgitRef).1).1
    obtain ⟨number, rfl⟩ := hs.refs.gitRef gitRef hsome
    exact pullRef_ref number _
  cloneUrl := (cloneUrl_https hd.url hd.backend hs.repo).shape _
  dotfiles spec hspec := (hdotfiles spec hspec).shape _
  secret := nofun
  forwards := hforwards
  slots := hslots
  session := hsession
  restore restore hrestore := by
    obtain ⟨block, hblock, rfl⟩ := Option.map_eq_some_iff.1 hrestore
    obtain ⟨pathname, hpathname⟩ := restoreBlock_url hblock
    obtain ⟨store, rest, url, hform, -⟩ := hd.blob.url pathname
    refine .inl ⟨store ++ blobHost ++ '/' :: rest, ?_⟩
    show _ = block.tarballUrl
    rw [hpathname, hform]
    simp only [List.append_assoc]
  origins := List.forall_mem_singleton.2 horigin
  activity := show 10 ≤ 30 by decide
  batch := show 0 < 200 ∧ 200 ≤ 200 by decide
  batchBytes := show 0 < 262144 ∧ 262144 ≤ 262144 by decide

theorem manifest_matches (hd : d.Production) (hs : s.Ok d) {cfg : Supervisor.Config} (hcfg : cfg.Production)
    (hid : cfg.workspaceId = s.workspace.id ∧ cfg.sandboxName = s.workspace.sandboxName)
    (hdotfiles : ∀ spec, dotfiles = some spec → HttpsUrl d.parse spec.repoUrl) :
    ((manifestOf d s origin).withParts dotfiles forwards session).Matches d.parse cfg where
  workspaceId := hid.1.symm
  sandboxName := hid.2.symm
  inside := by
    show Path.startsWith ("/workspaces/".toList ++ s.repo.name) cfg.workspacesDir = true ∧
      Path.components ("/workspaces/".toList ++ s.repo.name) ≠ _
    rw [Path.startsWith, hcfg.dir, workspaceDir_components hs.repo, defaultWorkspacesDir_components]
    exact ⟨by simp [List.isPrefixOf], by simp⟩
  restore restore hrestore := by
    obtain ⟨block, hblock, rfl⟩ := Option.map_eq_some_iff.1 hrestore
    obtain ⟨pathname, hpathname⟩ := restoreBlock_url hblock
    show Supervisor.checkTarballUrl d.parse block.tarballUrl false = .ok ()
    rw [hpathname]
    exact checkTarballUrl_presigned hd.blob pathname
  cloneUrl := cloneUrl_https hd.url hd.backend hs.repo
  dotfiles := hdotfiles

end

/-- In production a manifest is refused for the ports of its forward rows and for its dotfiles alone. -/
theorem accepted_iff (hd : d.Production) (hs : s.Ok d) {cfg : Supervisor.Config} (hcfg : cfg.Production)
    (hid : cfg.workspaceId = s.workspace.id ∧ cfg.sandboxName = s.workspace.sandboxName) :
    Accepted d cfg s ↔ s.Clean := by
  constructor
  · rintro ⟨doc, m, hdoc, hparse, hvalid⟩
    obtain ⟨origin, -, rfl⟩ := Option.map_eq_some_iff.1 hdoc
    obtain ⟨hdec, hshape⟩ := parseManifest_ok.1 hparse
    obtain ⟨dotfiles, forwards, session, hdotfiles, hforwards, -, -, rfl⟩ := decode_eq_some.1 hdec
    have hmatches := ((Supervisor.Manifest.validate_ok hcfg).1 hvalid).2
    refine ⟨portsOk_of_decoded hforwards fun forward hmem => (hshape.forwards forward hmem).port.1, ?_⟩
    exact (dotfiles_clean_iff hd.url hs.docs).1 ⟨dotfiles, hdotfiles, hmatches.dotfiles⟩
  · intro h
    obtain ⟨base, url, hbase, hurl, hscheme⟩ := hd.address
    have horigin := isOrigin_origin hd.url hurl hscheme
    obtain ⟨dotfiles, hdotfiles, hhttps⟩ := (dotfiles_clean_iff hd.url hs.docs).2 h.docs
    obtain ⟨forwards, hforwards, hallowed, hslots⟩ := forwards_allowed hs h.ports
    obtain ⟨session, hsession, hcap⟩ := session_decode hd s.workspace
    have hidle : s.workspace.idleMinutes < 2 ^ 32 := by
      have := hs.idle
      omega
    refine ⟨manifestOf d s url.origin, _, ?_, parseManifest_ok.2 ⟨decode_eq_some.2
      ⟨dotfiles, forwards, session, hdotfiles, hforwards, hsession, hidle, rfl⟩, ?_⟩, ?_⟩
    · rw [workspaceManifest, controlPlaneUrl, hbase, Option.bind_some, hurl]
      rfl
    · exact manifest_wellShaped hd hs horigin hhttps (fun f hf => (hallowed f hf).anySlot) hslots hcap
    · rw [Supervisor.Manifest.validate_ok hcfg, hcfg.slots]
      exact ⟨manifest_wellShaped hd hs horigin hhttps hallowed hslots hcap, manifest_matches hd hs hcfg hid hhttps⟩

/-- A reader of plain `https` URLs. -/
def sampleParse (t : Text) : Except String Url :=
  match Text.stripPrefix "https://".toList t with
  | none => .error "relative URL without a base"
  | some rest =>
    let host := rest.takeWhile (· ≠ '/')
    let path := rest.dropWhile (· ≠ '/')
    if host ≠ [] ∧ (host.all fun c => c.isAlphanum || c = '-' || c = '.') ∧ path.all Url.isPathChar then
      .ok ⟨Url.https, [], none, some host, none, if path = [] then ['/'] else path, none, none⟩
    else .error "invalid domain character"

theorem sampleParse_url {host path : Text} (hne : host ≠ [])
    (hhost : ∀ c ∈ host, (c.isAlphanum || c = '-' || c = '.') = true) (hpath : ∀ c ∈ path, Url.isPathChar c = true)
    (hstart : path = [] ∨ ∃ rest, path = '/' :: rest) : sampleParse ("https://".toList ++ (host ++ path)) =
      .ok ⟨Url.https, [], none, some host, none, if path = [] then ['/'] else path, none, none⟩ := by
  have hslash : ∀ c ∈ host, decide (c ≠ '/') = true := by
    intro c hc
    refine decide_eq_true fun h => ?_
    have := hhost c hc
    rw [h] at this
    exact absurd this (by decide)
  have htake : path.takeWhile (· ≠ '/') = [] := by
    rcases hstart with rfl | ⟨rest, rfl⟩
    · rfl
    · rfl
  have hdrop : path.dropWhile (· ≠ '/') = path := by
    rcases hstart with rfl | ⟨rest, rfl⟩
    · rfl
    · rfl
  have hstrip : Text.stripPrefix "https://".toList ("https://".toList ++ (host ++ path)) = some (host ++ path) := by
    rw [Text.stripPrefix, if_pos (List.isPrefixOf_iff_prefix.2 (List.prefix_append ..)), List.drop_left]
  unfold sampleParse
  rw [hstrip]
  simp only
  rw [List.takeWhile_append_of_pos hslash, List.dropWhile_append_of_pos hslash, htake, hdrop, List.append_nil]
  exact if_pos ⟨hne, List.all_eq_true.2 hhost, List.all_eq_true.2 hpath⟩

theorem sampleParse_ok {t : Text} {url : Url} (h : sampleParse t = .ok url) : ∃ host path, host ≠ [] ∧
    (∀ c ∈ host, (c.isAlphanum || c = '-' || c = '.') = true) ∧
      url = ⟨Url.https, [], none, some host, none, path, none, none⟩ := by
  unfold sampleParse at h
  split at h
  · cases h
  · simp only at h
    split at h
    · next hok =>
      cases h
      exact ⟨_, _, hok.1, List.all_eq_true.1 hok.2.1, rfl⟩
    · cases h

theorem sampleParse_standard : Url.Standard sampleParse where
  dash t url h := by
    have hnone : Text.stripPrefix "https://".toList ('-' :: t) = none := if_neg Bool.false_ne_true
    rw [sampleParse, hnone] at h
    cases h
  host t url h _ := by
    obtain ⟨host, path, hne, hhost, rfl⟩ := sampleParse_ok h
    exact ⟨host, rfl, hne, fun hmem => absurd (hhost _ hmem) (by decide)⟩
  origin t url h _ := by
    obtain ⟨host, path, hne, hhost, rfl⟩ := sampleParse_ok h
    have hparse := @sampleParse_url host [] hne hhost nofun (.inl rfl)
    have horigin : Url.origin ⟨Url.https, [], none, some host, none, path, none, none⟩ =
        "https://".toList ++ (host ++ []) := by
      show Url.https ++ Url.schemeEnd ++ host ++ [] = _
      rw [List.append_assoc (Url.https ++ Url.schemeEnd)]
      rfl
    rw [horigin, hparse]
    rfl
  plain host path hplain hpath := by
    obtain ⟨a, b, -, -, rfl, hlower⟩ := hplain.two
    have hhost : ∀ c ∈ a ++ '.' :: b, (c.isAlphanum || c = '-' || c = '.') = true := by
      intro c hc
      have hc : c ∈ a ++ b ∨ c = '.' := by
        rcases List.mem_append.1 hc with hc | hc
        · exact .inl (List.mem_append_left _ hc)
        · rcases List.mem_cons.1 hc with hc | hc
          · exact .inr hc
          · exact .inl (List.mem_append_right _ hc)
      rcases hc with hc | rfl
      · simp [Text.isAlphanum_iff, hlower c hc]
      · decide
    have hparse := sampleParse_url (List.append_ne_nil_of_right_ne_nil a (List.cons_ne_nil '.' b)) hhost
      (List.forall_mem_cons.2 ⟨(by decide : Url.isPathChar '/' = true), hpath⟩) (.inr ⟨path, rfl⟩)
    have hurl : Url.https ++ Url.schemeEnd ++ (a ++ '.' :: b) ++ '/' :: path =
        "https://".toList ++ ((a ++ '.' :: b) ++ '/' :: path) := by
      rw [List.append_assoc (Url.https ++ Url.schemeEnd)]
      rfl
    rw [hurl, hparse]
    exact ⟨_, rfl, rfl⟩

def sampleSha : Text := List.replicate 40 'a'

def sampleRepo : Repo := ⟨['o'], ['r'], ['m']⟩

def sampleDeployment : Deployment where
  env := sampleEnv
  parse := sampleParse
  github := ⟨fun _ _ => some sampleRepo, fun _ _ _ => some sampleSha, fun _ _ _ => some sampleSha,
    fun _ _ _ => some (['b'], sampleSha)⟩
  publicKeyPems := [Supervisor.beginPublicKey ++ Supervisor.endPublicKey]
  presignGet _ := "https://".toList ++ ['s'] ++ blobHost ++ '/' :: []
  localCloneUrl name := name
  urlSchema raw := match sampleParse raw.toTextLossy with
    | .ok _ => some raw
    | .error _ => none
  envShort := "prod".toList

theorem sampleDeployment_production : sampleDeployment.Production where
  url := sampleParse_standard
  github := by
    have hsha : IsSha sampleSha := ⟨by decide, Text.forall_mem_of_all (by decide)⟩
    refine ⟨?_, ?_, ?_, ?_⟩
    · rintro _ _ _ ⟨⟩
      exact ⟨Text.forall_mem_of_all (by decide), Text.forall_mem_of_all (by decide), by decide, by decide⟩
    · rintro _ _ _ _ ⟨⟩
      exact hsha
    · rintro _ _ _ _ ⟨⟩
      exact hsha
    · rintro _ _ _ _ ⟨⟩
      exact hsha
  backend := rfl
  address := ⟨"https://z/api", ⟨Url.https, [], none, some ['z'], none, "/api".toList, none, none⟩, by decide, by decide, rfl⟩
  cap := by decide
  issuer := by decide
  keys := by
    refine ⟨by decide, ?_⟩
    rintro _ (_ | ⟨_, ⟨⟩⟩)
    exact ⟨List.infix_append' [] _ _, List.infix_append' _ _ []⟩
  blob := by
    refine ⟨fun pathname => ⟨['s'], [], ⟨Url.https, [], none, some (['s'] ++ blobHost), none, ['/'], none, none⟩, rfl,
      Text.forall_mem_of_all (by decide), ?_, rfl, rfl, rfl, rfl⟩⟩
    exact @sampleParse_url (['s'] ++ blobHost) ['/'] (by decide) (Text.forall_mem_of_all (by decide))
      (Text.forall_mem_of_all (by decide)) (.inr ⟨[], rfl⟩)

def sampleCreate : CreateRequest :=
  ⟨"ws_1".toList, ['u'], ['o'], ['r'], none, ['i'], 30, ['b'], ['c'], ⟨0, by omega⟩⟩

theorem sampleCreate_branch : sampleCreate.BranchAllowed sampleDeployment := by
  rintro _ ⟨⟩ _ ⟨⟩
  decide

def sampleCreated (docs : UserDocs) : ManifestState :=
  ⟨sampleCreate.row sampleDeployment ⟨some ['m'], sampleSha, none⟩, sampleRepo, docs, .empty⟩

def sampleRunning : ForwardWorkspace := ⟨"ws_1", .running, some [(8444, "h")]⟩

def sampleSupervisor (s : ManifestState) : Supervisor.Config :=
  ⟨s.workspace.id, s.workspace.sandboxName, Supervisor.defaultWorkspacesDir, Supervisor.proxySlots, false, false⟩

theorem sampleSupervisor_production (s : ManifestState) : (sampleSupervisor s).Production := ⟨rfl, rfl, rfl, rfl⟩

def sampleDotfiles : DocRequest := .dotfiles ⟨some (Utf16.ofAscii "https://z/d".toList), none⟩

theorem sampleDotfiles_clean : sampleDotfiles.Clean sampleDeployment := by
  have hput : putDotfiles sampleDeployment ⟨some (Utf16.ofAscii "https://z/d".toList), none⟩ =
      some ⟨some (Utf16.ofAscii "https://z/d".toList), none⟩ := by decide
  intro doc hdoc
  rw [hput] at hdoc
  cases hdoc
  rintro _ ⟨⟩ -
  exact ⟨⟨"https://z/d".toList, by decide, by decide⟩, nofun⟩

end Zedspaces.Web
