/-
The project export (`export-project.py`): the files of a folder, as Git lists them or all of them, are put into one
archive in a temporary directory. The project is a tree that stays as it is during the export; every call may be
refused for reasons of the system's own.
-/
import Mathlib.Data.List.Dedup
import Std.Data.ExtTreeMap
import Zedspaces.Lib.Text

namespace Zedspaces.Image

open Lib Std

abbrev Bytes := List UInt8

def bytes (s : String) : Bytes := Text.utf8 s.toList

def maxFiles : Nat := 20000

def maxBytes : Nat := 256 * 1024 * 1024

def maxNames : Nat := 4 * 1024 * 1024

inductive OsError
  | notFound | other
  deriving DecidableEq, Repr

inductive Failure
  | exportError (message : String)
  | os (error : OsError)
  | unicode
  | recursion
  deriving DecidableEq, Repr

/-! ## The project -/

/-- A regular file: its links, `st_size`, and what reading it gives. -/
structure RegularFile where
  nlink : Nat
  size : Nat
  chunks : List Bytes

inductive Node
  | dir (entries : List (Bytes × Node))
  | file (info : RegularFile)
  | link (target : Bytes)
  | special

/-- The names from the root of the file system down. -/
abbrev Path := List Bytes

/-- What stands at a path whose directories are real ones. -/
def entry : Node → Path → Option Node
  | node, [] => some node
  | .dir entries, name :: rest => (entries.lookup name).bind fun child => entry child rest
  | _, _ :: _ => none

/-- Reading ends at the first empty chunk. -/
def untilEmpty (chunks : List Bytes) : List Bytes := chunks.takeWhile (· ≠ [])

def RegularFile.content (info : RegularFile) : Bytes := (untilEmpty info.chunks).flatten

/-- What `git ls-files -z` prints and how it ends. -/
structure GitRun where
  chunks : List Bytes
  exitCode : Nat

/-- The calls made for one member name. -/
inductive Call
  | openParent (i : Nat) | stat | openChild | openFile | read | write
  deriving DecidableEq, Repr

/-- The system an export runs on: where the project root leads, what Git answers in a directory, and which calls it
refuses. `tempfile` gives an absolute path without a `/` at its end, unless it is the root, and random names. -/
structure System where
  fs : Node
  root : Option Path
  git : Path → Option GitRun
  denied : Bytes → Call → Bool
  folderDenied : Nat → Bool
  listDenied : Path → Bool
  recursionLimit : Nat
  zipOpens : Bool
  zipCloses : Bool
  tempdir : Text
  tempdir_normal : tempdir ≠ [] ∧ (tempdir.all (· = '/') = true ∨ tempdir.getLast? ≠ some '/')
  randomNames : List Text
  randomNames_plain : ∀ name ∈ randomNames, '/' ∉ name

/-! ## Names -/

def slash : UInt8 := 0x2F

def forbiddenComponents : List Bytes := [[], bytes ".", bytes "..", bytes ".git"]

def components (path : Bytes) : Except Failure (List Bytes) :=
  let parts := if path = [] then [] else path.splitOn slash
  if (parts.any fun part => forbiddenComponents.contains part) || path.contains 0 || path.contains 0x5C then
    .error (.exportError "Choose a folder inside the project; .git cannot be exported.")
  else .ok parts

def isUtf8 (name : Bytes) : Bool := Text.utf8 (Text.utf8Lossy none name) = name

/-! ## Directories -/

section
variable (sys : System)

/-- `os.open` of one name with `DIR_FLAGS`. -/
def openAt (fd : Path) (part : Bytes) : Except Failure Path :=
  if part = bytes "." then .ok fd
  else if part = bytes ".." then .ok fd.dropLast
  else match entry sys.fs (fd ++ [part]) with
    | some (.dir _) => .ok (fd ++ [part])
    | some _ => .error (.os .other)
    | none => .error (.os .notFound)

/-- `denied` says which of the calls is refused; the last one stands for `dup`. -/
def openDir (denied : Nat → Bool) (fd : Path) : List Bytes → Except Failure Path
  | [] => if denied 0 then .error (.os .other) else .ok fd
  | part :: rest =>
    if denied 0 then .error (.os .other)
    else do
      let next ← openAt sys fd part
      openDir (fun i => denied (i + 1)) next rest

/-! ## Listings -/

/-- What a generator yields, and what it raises at the end. -/
structure Listing where
  paths : List Bytes
  failure : Option Failure

def Listing.andThen (a b : Listing) : Listing :=
  match a.failure with
  | some _ => a
  | none => ⟨a.paths ++ b.paths, b.failure⟩

def rstripSlash (path : Bytes) : Bytes := (path.reverse.dropWhile (· = slash)).reverse

def decodePath (path : Bytes) : Listing := if isUtf8 path then ⟨[rstripSlash path], none⟩ else ⟨[], some .unicode⟩

/-- The loop over the output: complete paths are yielded, the rest waits for the next chunk. -/
def readGit (exitCode : Nat) (total : Nat) (pending : Bytes) : List Bytes → Listing
  | [] =>
    if exitCode ≠ 0 ∨ pending ≠ [] then ⟨[], some (.exportError "Could not read Git's working-file list.")⟩
    else ⟨[], none⟩
  | chunk :: rest =>
    if maxNames < total + chunk.length then
      ⟨[], some (.exportError "Too many project paths. Export a smaller folder.")⟩
    else
      let paths := (pending ++ chunk).splitOn 0
      (paths.dropLast.foldr (fun path rest => (decodePath path).andThen rest) ⟨[], none⟩).andThen
        (readGit exitCode (total + chunk.length) (paths.getLastD []) rest)

def gitPaths (fd : Path) : Listing :=
  match sys.git fd with
  | none => ⟨[], some (.os .other)⟩
  | some run => readGit run.exitCode 0 [] (untilEmpty run.chunks)

/-- `limit` bounds the recursion, as the interpreter does. -/
def walk : Nat → Path → Node → Bytes → Listing
  | 0, _, _, _ => ⟨[], some .recursion⟩
  | limit + 1, fd, .dir entries, namePrefix =>
    if sys.listDenied fd then ⟨[], some (.os .other)⟩
    else entries.foldr (fun e rest =>
      if e.1 = bytes ".git" then rest
      else match e.2 with
        | .dir _ => (walk limit (fd ++ [e.1]) e.2 (namePrefix ++ e.1 ++ [slash])).andThen rest
        | _ => (Listing.mk [namePrefix ++ e.1] none).andThen rest) ⟨[], none⟩
  | _ + 1, _, _, _ => ⟨[], some (.os .other)⟩

def walkFrom (selected : Path) : Listing :=
  match entry sys.fs selected with
  | some node => walk sys sys.recursionLimit selected node []
  | none => ⟨[], some (.os .notFound)⟩

/-! ## The archive -/

structure Member where
  name : Bytes
  content : Bytes

/-- What `create` counts, and the archive so far. -/
structure Run where
  seen : List Bytes
  count : Nat
  total : Nat
  skipped : Nat
  archive : List Member

def Run.empty : Run := ⟨[], 0, 0, 0, []⟩

def exceedsBytes : Failure := .exportError "Export exceeds 256 MiB. Choose a smaller folder."

def changedType : Failure := .exportError "A project file changed type during export. Try again."

/-- The total after the chunks are written. -/
def copyChunks (total : Nat) : List Bytes → Except Failure Nat
  | [] => .ok total
  | chunk :: rest =>
    if maxBytes < total + chunk.length then .error exceedsBytes else copyChunks (total + chunk.length) rest

/-- Opens a file without following a link, looks at it again and writes its member. -/
def addFile (name : Bytes) (file : Path) (run : Run) : Except Failure Run :=
  if sys.denied name .openFile then .error (.os .other)
  else match entry sys.fs file with
    | none => .error (.os .notFound)
    | some (.link _) => .error (.os .other)
    | some (.file info) =>
      if info.nlink ≠ 1 then .error changedType
      else if maxBytes < run.total + info.size then .error exceedsBytes
      else if isUtf8 name = false then .error .unicode
      else if sys.denied name .write ∨ sys.denied name .read then .error (.os .other)
      else do
        let total ← copyChunks run.total (untilEmpty info.chunks)
        pure { run with total, count := run.count + 1, archive := run.archive ++ [⟨name, info.content⟩] }
    | some _ => .error changedType

/-- The loop's body for a path with a last component; `nested` adds the paths of a nested repository. -/
def addNamed (nested : Path → Bytes → Run → Except Failure Run) (base : Path) (parts : List Bytes) (last name : Bytes)
    (run : Run) : Except Failure Run :=
  match openDir sys (fun i => sys.denied name (.openParent i)) base parts with
  -- a tracked file that was deleted
  | .error (.os .notFound) => .ok run
  | .error e => .error e
  | .ok parent =>
    if sys.denied name .stat then .error (.os .other)
    else match entry sys.fs (parent ++ [last]) with
      | none => .ok run
      | some (.dir _) =>
        if sys.denied name .openChild then .error (.os .other)
        else do
          let child ← openAt sys parent last
          nested child (name ++ [slash]) run
      | some (.file info) =>
        if info.nlink ≠ 1 then .ok { run with skipped := run.skipped + 1 }
        else addFile sys name (parent ++ [last]) run
      | some _ => .ok { run with skipped := run.skipped + 1 }

def addPath (nested : Path → Bytes → Run → Except Failure Run) (base : Path) (archivePrefix : Bytes) (run : Run)
    (path : Bytes) : Except Failure Run := do
  let parts ← components path
  match parts.getLast? with
  | none => pure run
  | some last =>
    let name := archivePrefix ++ path
    if name ∈ run.seen then pure run
    else if maxFiles < run.seen.length + 1 then
      .error (.exportError "Export exceeds 20,000 files. Choose a smaller folder.")
    else addNamed sys nested base parts.dropLast last name { run with seen := name :: run.seen }

def addPaths : Nat → Path → Listing → Bytes → Run → Except Failure Run
  | 0, _, _, _, _ => .error .recursion
  | limit + 1, base, listing, archivePrefix, run => do
    let run ← listing.paths.foldlM
      (addPath sys (fun child => addPaths limit child (gitPaths sys child)) base archivePrefix) run
    match listing.failure with
    | some failure => .error failure
    | none => pure run

/-! ## The temporary directory -/

/-- The exporter's directories in the temporary directory, by name, and whether they hold a `project.zip`. -/
abbrev Temp := ExtTreeMap Text Bool

def exportPrefix : Text := "zedspaces-export-".toList

def projectZip : Text := "project.zip".toList

/-- `os.path.join` -/
def pathJoin (a b : Text) : Text :=
  if b.head? = some '/' then b else if a = [] ∨ a.getLast? = some '/' then a ++ b else a ++ '/' :: b

/-- `os.path.split` -/
def pathSplit (p : Text) : Text × Text :=
  let head := (p.reverse.dropWhile (· ≠ '/')).reverse
  let tail := (p.reverse.takeWhile (· ≠ '/')).reverse
  (if head.all (· = '/') then head else (head.reverse.dropWhile (· = '/')).reverse, tail)

/-- `tempfile.mkdtemp`: the first random name that is free. -/
def mkdtemp (temp : Temp) : Option (Text × Temp) :=
  ((sys.randomNames.map (exportPrefix ++ ·)).find? fun name => !temp.contains name).map fun name =>
    (pathJoin sys.tempdir name, temp.insert name false)

def invalidTemporary : Failure := .exportError "Invalid temporary export path."

/-- Removes the archive, if there is one, and its directory. -/
def cleanup (path : Text) (temp : Temp) : Except Failure Temp :=
  let (parent, basename) := pathSplit path
  if basename ≠ projectZip ∨ (pathSplit parent).1 ≠ sys.tempdir then .error invalidTemporary
  else
    let name := (pathSplit parent).2
    if !exportPrefix.isPrefixOf name || name.contains '/' then .error invalidTemporary
    else .ok (temp.erase name)

/-! ## `create` -/

/-- What an export reports, and the archive it leaves. -/
structure Exported where
  directory : Text
  files : Nat
  skippedFiles : Nat
  sourceBytes : Nat
  archive : List Member

def openSelected (folder : Bytes) : Except Failure Path :=
  match sys.root with
  | none => .error (.os .notFound)
  | some root => match entry sys.fs root with
    | some (.dir _) => do
      let parts ← components folder
      openDir sys sys.folderDenied root parts
    | _ => .error (.os .other)

/-- The archive of a selected folder. -/
def writeArchive (selected : Path) (includeIgnored : Bool) : Except Failure Run :=
  let candidates := if includeIgnored then walkFrom sys selected else gitPaths sys selected
  if sys.zipOpens = false then .error (.os .other)
  else do
    let run ← addPaths sys sys.recursionLimit selected candidates [] .empty
    if sys.zipCloses then pure run else .error (.os .other)

def create (folder : Bytes) (includeIgnored : Bool) (temp : Temp) : Except Failure Exported × Temp :=
  match openSelected sys folder with
  | .error e => (.error e, temp)
  | .ok selected => match mkdtemp sys temp with
    | none => (.error (.os .other), temp)
    | some (temporary, temp) =>
      let written := temp.insert (pathSplit temporary).2 sys.zipOpens
      match writeArchive sys selected includeIgnored with
      | .ok run =>
        (.ok ⟨(pathSplit temporary).2, run.count, run.skipped, run.total, run.archive⟩, written)
      | .error e => match cleanup sys (pathJoin temporary projectZip) written with
        | .ok temp => (.error e, temp)
        | .error e' => (.error e', written)

end

end Zedspaces.Image
