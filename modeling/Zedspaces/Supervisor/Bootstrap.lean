/-
Repository setup at boot (`bootstrap.rs`): what `materialize_repo` reads and has done, one system call or child process
after the other. A call that takes time (`remove_dir_all`, the recursive copy, `git`, `tar`) is an operation of several
steps, so that a boot may be stopped in the middle of it. The configured directories are real paths, without links on
the way to them; what stands below them may be anything, links included. The trees `git` and `tar` leave behind are the
world's (`World`).
-/
import Zedspaces.Lib.Crash
import Zedspaces.Lib.Files
import Zedspaces.Supervisor.Manifest

namespace Zedspaces.Supervisor.Bootstrap

open Lib Lib.Files

/-- Where the supervisor keeps things. -/
structure Dirs where
  workspacesDir : Path
  dataDir : Path
  home : Path
  stateDir : Path

/-- `<state>/restore.partial` -/
def Dirs.restoreDir (D : Dirs) : Path := D.stateDir ++ ["restore.partial".toList]

/-- The files, and the marker `clone.done`, which stands apart from them in the markers directory. -/
structure Disk where
  fs : Tree
  cloneDone : Bool

/-- What lies outside the program: the tree an archive carries, and which trees are a complete checkout. -/
structure World where
  archive : RestoreSpec → Tree
  checkedOut : RepoSpec → Tree → Bool

/-! ## System calls and child processes -/

inductive IoError where
  | notFound
  | other
  deriving DecidableEq, Repr

inductive Op where
  | removeDirAll (path : Path)
  | removeFile (path : Path)
  | createDirAll (path : Path)
  | readDir (path : Path)
  | rename (src dst : Path)
  | copyTree (src dst : Path)
  /-- a `git` child in `cwd`, for the checkout of `repo` -/
  | git (repo : RepoSpec) (args : List Text) (cwd : Path)
  /-- the download into `tar -xzf - -C <dir>` -/
  | extract (spec : RestoreSpec) (dir : Path)
  /-- `Markers::set_clone_done`: a temporary file, renamed -/
  | setCloneDone

/-- What the world adds to one step of an operation. -/
inductive Outcome where
  /-- one more entry goes, with what is under it -/
  | unlink (path : Path)
  /-- one more entry is written -/
  | write (path : Path) (kind : Kind)
  /-- the child process has left this tree so far -/
  | churn (tree : Tree)
  | done
  /-- the child process exits with 0, having left this tree and printed this digest -/
  | exit (tree : Tree) (digest : Text)
  | fail

abbrev Reply := Except IoError (List Text)

def isSwitch (args : List Text) : Bool := args.head? = some "switch".toList

/-- Whether `rename` may put `src` where `dst` is. -/
def renameable (t : Tree) (src dst : Path) : Bool :=
  match kind t src, kind t dst with
  | none, _ => false
  | some .dir, none => !(src.isPrefixOf dst)
  | some .dir, some .dir => !(src.isPrefixOf dst) && children t dst = []
  | some .dir, some _ => false
  | some _, some .dir => false
  | some _, _ => true

/-- Every entry of `t'` stands below `path`. -/
def carried (t' : Tree) (path : Path) (t : Tree) : Bool := t'.all fun e => kind t (path ++ e.1) = kind t' e.1

/-- One step of an operation. Every operation may fail at any time. -/
def device (W : World) : Prog.Device Op Disk Reply Outcome
  | _, .fail, d => some (d, some (.error .other))
  | .removeDirAll p, .unlink q, d =>
    if kind d.fs p = some .dir ∧ Under p q then some (⟨clear q d.fs, d.cloneDone⟩, none) else none
  | .removeDirAll p, .done, d => match kind d.fs p with
    | none => some (d, some (.error .notFound))
    | some (.file _) => some (d, some (.error .other))
    | some _ => some (⟨clear p d.fs, d.cloneDone⟩, some (.ok []))
  | .removeFile p, .done, d => match kind d.fs p with
    | none => some (d, some (.error .notFound))
    | some .dir => some (d, some (.error .other))
    | some _ => some (⟨erase p d.fs, d.cloneDone⟩, some (.ok []))
  | .createDirAll p, .write q _, d =>
    if q <+: p ∧ kind d.fs q = none then some (⟨put q .dir d.fs, d.cloneDone⟩, none) else none
  | .createDirAll p, .done, d => some (⟨mkdirAll p d.fs, d.cloneDone⟩, some (.ok []))
  | .readDir p, .done, d =>
    if kind d.fs p = some .dir then some (d, some (.ok (children d.fs p))) else some (d, some (.error .notFound))
  | .rename src dst, .done, d =>
    if renameable d.fs src dst then some (⟨move src dst d.fs, d.cloneDone⟩, some (.ok []))
    else some (d, some (.error .other))
  | .copyTree _ dst, .write q k, d =>
    if dst <+: q ∧ kind d.fs q = none then some (⟨put q k d.fs, d.cloneDone⟩, none) else none
  | .copyTree src dst, .done, d =>
    if carried (subtree src d.fs) dst d.fs then some (d, some (.ok [])) else none
  | .git _ _ cwd, .churn t, d => some (⟨graft cwd t d.fs, d.cloneDone⟩, none)
  | .git repo args cwd, .exit t _, d =>
    if isSwitch args → W.checkedOut repo t then some (⟨graft cwd t d.fs, d.cloneDone⟩, some (.ok [])) else none
  | .extract _ dir, .churn t, d => some (⟨graft dir t d.fs, d.cloneDone⟩, none)
  | .extract spec dir, .exit t digest, d =>
    if carried (W.archive spec) [] t then some (⟨graft dir t d.fs, d.cloneDone⟩, some (.ok [digest])) else none
  | .setCloneDone, .done, d => some (⟨d.fs, true⟩, some (.ok []))
  | _, _, _ => none

/-! ## The program -/

inductive Failure where
  | io (error : IoError)
  /-- "restore archive: … is a symlink; refusing to follow it" -/
  | symlink (path : Path)
  /-- "restore tarball sha256 mismatch (expected …, got …)" -/
  | digest (expected got : Text)
  deriving DecidableEq, Repr

abbrev Setup := Prog.Fallible Failure Op Disk Reply

/-- A call whose error is the program's. -/
def call (op : Op) : Setup (List Text) := ExceptT.mk (Prog.perform op >>= fun r => pure (r.mapError .io))

def call' (op : Op) : Setup Unit := do
  let _ ← call op
  pure ()

/-- A missing path is not an error. -/
def removeTree (path : Path) : Setup Unit := ExceptT.mk (Prog.perform (.removeDirAll path) >>= fun
  | .error .notFound => pure (.ok ())
  | .error error => pure (.error (.io error))
  | .ok _ => pure (.ok ()))

structure FetchPlan where
  refspec : Text
  depth : Option Nat
  branch : Option Text

def isHexdigit (c : Char) : Bool := c.isDigit || ('a' ≤ c && c ≤ 'f') || ('A' ≤ c && c ≤ 'F')

def isSha (revision : Text) : Bool := revision.length = 40 && revision.all isHexdigit

def fetchPlan (repo : RepoSpec) : FetchPlan :=
  let depth := if repo.depth > 0 then some repo.depth else none
  match repo.gitRef.filter fun r => Text.trim r ≠ [] with
  | some gitRef => ⟨gitRef, depth, none⟩
  | none =>
    if isSha repo.revision then ⟨repo.revision, depth, none⟩
    else ⟨"refs/heads/".toList ++ repo.revision, depth, some repo.revision⟩

def words (args : List String) : List Text := args.map String.toList

def fetchArgs (plan : FetchPlan) : List Text :=
  words ["fetch"] ++ (plan.depth.map fun depth => ("--depth=" ++ toString depth).toList).toList ++
    words ["--no-tags", "--progress", "origin", "--"] ++ [plan.refspec]

def switchArgs : Option Text → List Text
  | some branch => words ["switch", "-C"] ++ [branch] ++ words ["FETCH_HEAD"]
  | none => words ["switch", "--detach", "FETCH_HEAD"]

/-- `git init` / `remote add` / `fetch` / `switch` in the staging directory. -/
def cloneInto (staging : Path) (repo : RepoSpec) (plan : FetchPlan) : Setup Unit := do
  call' (.createDirAll staging)
  call' (.git repo (words ["init", "--quiet"]) staging)
  call' (.git repo (words ["remote", "add", "--", "origin"] ++ [repo.cloneUrl]) staging)
  call' (.git repo (fetchArgs plan) staging)
  call' (.git repo (switchArgs plan.branch) staging)

/-- `<dir>.partial` -/
def partialDir (dir : Path) : Path := dir.dropLast ++ [dir.getLast?.getD [] ++ ".partial".toList]

/-- No digest, or a blank one, accepts any archive. -/
def verifySha256 (expected : Option Text) (digest : Text) : Except Failure Unit :=
  match (expected.map Text.trim).filter (· ≠ []) with
  | none => .ok ()
  | some expected =>
    if expected.map Char.toLower = digest.map Char.toLower then .ok () else .error (.digest expected digest)

def downloadAndExtract (spec : RestoreSpec) (restoreDir : Path) : Setup Unit := do
  let digest ← call (.extract spec restoreDir)
  ExceptT.mk (pure (verifySha256 spec.sha256 digest.flatten))

def workspacesName : Text := "workspaces".toList

/-- The paths of an archive the layout descends through. -/
def layoutPaths : List Path :=
  [["workspaces"], ["vercel"], ["vercel", ".local"], ["vercel", ".local", "share"], ["vercel", ".local", "share", "zed"],
    ["vercel", ".local", "share", "jupyter"], ["vercel", ".local", "share", "jupyter", "kernels"], ["vercel", ".config"],
    ["vercel", ".config", "zed"]].map words

def isSymlink : Option Kind → Bool
  | some (.link _) => true
  | _ => false

def refuseSymlink (path : Path) : Setup Unit := do
  if isSymlink (← Prog.look fun d => kind d.fs path) then throw (.symlink path) else pure ()

/-- Whatever stands at the destination of a move goes; a link is unlinked, never followed. -/
def clearPlace (path : Path) : Setup Unit := do
  match ← Prog.look fun d => kind d.fs path with
  | none => pure ()
  | some .dir => call' (.removeDirAll path)
  | some _ => call' (.removeFile path)

/-- `rename` where possible, else a recursive copy. The source lies below a real directory. -/
def movePath (base : Path) (rest : List Text) (dst : Path) : Setup Unit := do
  clearPlace dst
  call' (.createDirAll dst.dropLast)
  match ← Prog.capture (call (.rename (base ++ rest) dst)) with
  | .ok _ => pure ()
  | .error _ =>
    call' (.copyTree (base ++ rest) dst)
    if ← Prog.look fun d => isDir d.fs base rest then call' (.removeDirAll (base ++ rest))
    else call' (.removeFile (base ++ rest))

section
variable (D : Dirs)

/-- A symlinked workspace root is skipped. -/
def moveWorkspace (name : Text) : Setup Unit := do
  if isSymlink (← Prog.look fun d => kind d.fs (D.restoreDir ++ [workspacesName, name])) then pure ()
  else movePath D.restoreDir [workspacesName, name] (D.workspacesDir ++ [name])

def moveWorkspaces : Setup Unit := do
  if ← Prog.look fun d => isDir d.fs D.restoreDir [workspacesName] then
    call' (.createDirAll D.workspacesDir)
    let names ← call (.readDir (D.restoreDir ++ [workspacesName]))
    names.forM (moveWorkspace D)
  else pure ()

def moveIfPresent (rest : List Text) (dst : Path) : Setup Unit := do
  if ← Prog.look fun d => pathExists d.fs D.restoreDir rest then movePath D.restoreDir rest dst else pure ()

def kernels : List Text := words [".local", "share", "jupyter", "kernels"]

def zedSettings : List Text := words [".config", "zed"]

/-- Moves the extracted tree into place. -/
def applyRestoreLayout : Setup Unit := do
  layoutPaths.forM fun path => refuseSymlink (D.restoreDir ++ path)
  moveWorkspaces D
  moveIfPresent D (words ["vercel", ".local", "share", "zed"]) D.dataDir
  moveIfPresent D ("vercel".toList :: kernels) (D.home ++ kernels)
  moveIfPresent D ("vercel".toList :: zedSettings) (D.home ++ zedSettings)

def restoreTarball (spec : RestoreSpec) : Setup Unit := do
  Prog.attempt (removeTree D.restoreDir)
  call' (.createDirAll D.restoreDir)
  match ← Prog.capture (downloadAndExtract spec D.restoreDir) with
  | .error error =>
    Prog.attempt (removeTree D.restoreDir)
    throw error
  | .ok () =>
    let layout ← Prog.capture (applyRestoreLayout D)
    Prog.attempt (removeTree D.restoreDir)
    ExceptT.mk (pure layout)

/-- `manifest.workspace_dir` -/
def workspaceDir (m : Manifest) : Path := (Path.components m.workspaceDir).filterMap fun
  | .normal name => some name
  | _ => none

/-- The workspace directory, as seen from the workspaces directory. -/
def relDir (m : Manifest) : List Text := (workspaceDir m).drop D.workspacesDir.length

/-- A truncated earlier checkout is removed. -/
def removeTruncated (m : Manifest) : Setup Unit := do
  if ← Prog.look fun d => pathExists d.fs D.workspacesDir (relDir D m) then removeTree (workspaceDir m) else pure ()

/-- `dir.join(".git").is_dir() && markers.clone_done()` -/
def alreadyPresent (m : Manifest) (d : Disk) : Bool :=
  isDir d.fs D.workspacesDir (relDir D m ++ [".git".toList]) && d.cloneDone

def materializeFromRestore (spec : RestoreSpec) : Setup Unit := do
  restoreTarball D spec
  call' .setCloneDone

def materializeFromClone (m : Manifest) : Setup Unit := do
  call' (.createDirAll (workspaceDir m).dropLast)
  match ← Prog.capture (cloneInto (partialDir (workspaceDir m)) m.repo (fetchPlan m.repo)) with
  | .error error =>
    Prog.attempt (removeTree (partialDir (workspaceDir m)))
    throw error
  | .ok () =>
    call' (.rename (partialDir (workspaceDir m)) (workspaceDir m))
    call' .setCloneDone

def materializeRepo (m : Manifest) : Setup Unit := do
  if ← Prog.look (alreadyPresent D m) then pure ()
  else
    removeTruncated D m
    Prog.attempt (removeTree (partialDir (workspaceDir m)))
    Prog.attempt (removeTree D.restoreDir)
    match m.restore with
    | some spec => materializeFromRestore D spec
    | none => materializeFromClone m

/-! ## Boots -/

/-- What the user makes of a directory in the workspaces directory. -/
structure Edit where
  path : Path
  tree : Tree

/-- Boots of manifests that are inside the workspaces directory, and the user's edits between them. -/
def boots (W : World) : Host.Setup Manifest Op Disk Reply Outcome Edit (Except Failure Unit) where
  device := device W
  admits m := decide (Under D.workspacesDir (workspaceDir m))
  program m := (materializeRepo D m).run
  edit e d := if Under D.workspacesDir e.path then some ⟨graft e.path e.tree d.fs, d.cloneDone⟩ else none

/-- A sandbox is new until its first boot. -/
def system (W : World) : System (Host Manifest Op Disk Reply (Except Failure Unit)) (Host.Event Manifest Outcome Edit) :=
  Host.system (boots D W) fun d => d.cloneDone = false

end

/-- What the supervisor's validation lets through is inside the workspaces directory. -/
theorem under_of_validate {parse : Text → Except String Url} {cfg : Config} {m : Manifest} (hcfg : cfg.Production)
    (h : m.validate parse cfg = .ok ()) : Under [workspacesName] (workspaceDir m) := by
  obtain ⟨hshape, hmatches⟩ := (Manifest.validate_ok hcfg).1 h
  obtain ⟨hstart, hne⟩ := hmatches.inside
  have hbase : Path.components cfg.workspacesDir = [.rootDir, .normal workspacesName] := by
    rw [hcfg.dir]
    decide
  rw [Path.startsWith, hbase] at hstart
  rw [hbase] at hne
  obtain ⟨rest, hrest⟩ := List.isPrefixOf_iff_prefix.1 hstart
  cases rest with
  | nil => exact absurd hrest.symm hne
  | cons c rest =>
    have hnormal := hshape.dir
    rw [Manifest.normalDir, Bool.and_eq_true, ← hrest, List.all_append, Bool.and_eq_true] at hnormal
    -- below the root there are only names
    have hc : c ∈ (Path.pieces m.workspaceDir).filterMap Path.component := by
      rw [Path.components, if_pos hnormal.1] at hrest
      have htail : (Path.pieces m.workspaceDir).filterMap Path.component = .normal workspacesName :: c :: rest :=
        (List.cons.inj hrest).2.symm
      rw [htail]
      exact List.mem_cons_of_mem _ (List.mem_cons_self ..)
    obtain ⟨piece, -, hpiece⟩ := List.mem_filterMap.1 hc
    obtain ⟨name, rfl⟩ : ∃ name, c = .normal name := by
      cases c with
      | normal name => exact ⟨name, rfl⟩
      | rootDir =>
        unfold Path.component at hpiece
        split at hpiece
        · cases hpiece
        · split at hpiece <;> cases hpiece
      | curDir => cases hnormal.2.2
      | parentDir => cases hnormal.2.2
    rw [workspaceDir, ← hrest]
    refine ⟨⟨name :: _, rfl⟩, fun heq => ?_⟩
    cases (List.cons.inj heq).2

end Zedspaces.Supervisor.Bootstrap
