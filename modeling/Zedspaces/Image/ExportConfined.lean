/-
A project export is confined: whatever the tree holds and whatever the listings name, an export that fails leaves the
temporary directory as it was, and one that succeeds holds regular files with one link only, each under a name of its
own without `.git` or dots, read at exactly that place below the selected folder, within the limits.
-/
import Mathlib.Data.List.Perm.Subperm
import Zedspaces.Image.ExportProject
import Zedspaces.Lib.Fallible
import Zedspaces.Lib.Maps

namespace Zedspaces.Image

open Lib Std

variable {sys : System} {fd fd' base selected : Path} {part path name namePrefix : Bytes} {parts : List Bytes}
  {run run' : Run}

/-! ## Names and directories -/

/-- No component is empty, a dot name or `.git`. -/
def Plain (parts : List Bytes) : Prop := ∀ part ∈ parts, part ∉ forbiddenComponents

theorem components_eq_ok (h : components path = .ok parts) :
    parts = (if path = [] then [] else path.splitOn slash) ∧ Plain parts := by
  unfold components at h
  dsimp only at h
  generalize (if path = [] then [] else path.splitOn slash) = pieces at h ⊢
  split at h
  · cases h
  · rename_i hcheck
    cases h
    refine ⟨rfl, fun part hpart hforbidden => hcheck ?_⟩
    rw [Bool.or_eq_true, Bool.or_eq_true, List.any_eq_true]
    exact .inl (.inl ⟨part, hpart, List.contains_iff_mem.2 hforbidden⟩)

/-- A name without dots is opened one directory down. -/
theorem openAt_eq_ok (hpart : part ∉ forbiddenComponents) (h : openAt sys fd part = .ok fd') : fd' = fd ++ [part] := by
  unfold openAt at h
  split at h
  · rename_i hdot
    exact absurd (by rw [hdot]; decide) hpart
  · split at h
    · rename_i hdots
      exact absurd (by rw [hdots]; decide) hpart
    · split at h <;> cases h
      rfl

theorem openDir_eq_ok {denied : Nat → Bool} (hplain : Plain parts) (h : openDir sys denied fd parts = .ok fd') :
    fd' = fd ++ parts := by
  induction parts generalizing fd denied with
  | nil =>
    unfold openDir at h
    split at h <;> cases h
    exact (List.append_nil _).symm
  | cons part parts ih =>
    unfold openDir at h
    split at h
    · cases h
    · obtain ⟨next, hnext, h⟩ := bind_eq_ok h
      rw [ih (fun p hp => hplain p (List.mem_cons_of_mem _ hp)) h,
        openAt_eq_ok (hplain part (List.mem_cons_self ..)) hnext, List.append_assoc]
      rfl

/-- What is added at `base` is named by `namePrefix` and what comes below: the names go on where the path does. -/
def Below (selected base : Path) (namePrefix : Bytes) : Prop :=
  ∃ above, base = selected ++ above ∧ Plain above ∧
    ∀ path : Bytes, (namePrefix ++ path).splitOn slash = above ++ path.splitOn slash

theorem Below.refl : Below selected selected [] := ⟨[], (List.append_nil _).symm, by rintro _ ⟨⟩, fun _ => rfl⟩

/-! ## What a run keeps -/

/-- A member is a regular file with one link, and stands where its name says. -/
structure Member.Confined (sys : System) (selected : Path) (m : Member) : Prop where
  plain : Plain (m.name.splitOn slash)
  file : ∃ info, entry sys.fs (selected ++ m.name.splitOn slash) = some (.file info) ∧ info.nlink = 1 ∧
    m.content = info.content

/-- The bytes read for an archive. -/
def contentBytes (archive : List Member) : Nat := (archive.map fun m => m.content.length).sum

structure Run.Ok (sys : System) (selected : Path) (run : Run) : Prop where
  seen : run.seen.length ≤ maxFiles
  names : (run.archive.map Member.name).Nodup
  listed : ∀ m ∈ run.archive, m.name ∈ run.seen
  confined : ∀ m ∈ run.archive, m.Confined sys selected
  total : run.total = contentBytes run.archive
  bytes : run.total ≤ maxBytes

theorem Run.Ok.empty : Run.empty.Ok sys selected :=
  ⟨Nat.zero_le _, List.nodup_nil, by rintro _ ⟨⟩, by rintro _ ⟨⟩, rfl, Nat.zero_le _⟩

theorem copyChunks_eq_ok {total total' : Nat} {chunks : List Bytes} (h : copyChunks total chunks = .ok total') :
    total' = total + chunks.flatten.length ∧ (total ≤ maxBytes → total' ≤ maxBytes) := by
  induction chunks generalizing total with
  | nil => cases h; exact ⟨rfl, id⟩
  | cons chunk chunks ih =>
    unfold copyChunks at h
    split at h
    · cases h
    · rename_i hle
      obtain ⟨heq, hbound⟩ := ih h
      rw [List.flatten_cons, List.length_append]
      exact ⟨by omega, fun _ => hbound (Nat.le_of_not_lt hle)⟩

/-- A file is added where its name was listed and not used yet. -/
theorem Run.Ok.addFile (h : run.Ok sys selected) (hseen : name ∈ run.seen)
    (hnew : ∀ m ∈ run.archive, m.name ≠ name) (hplain : Plain (name.splitOn slash))
    (hadd : addFile sys name (selected ++ name.splitOn slash) run = .ok run') : run'.Ok sys selected := by
  unfold Image.addFile at hadd
  split at hadd
  · cases hadd
  · split at hadd
    · cases hadd
    · cases hadd
    · rename_i info hentry
      split at hadd
      · cases hadd
      · rename_i hnlink
        split at hadd
        · cases hadd
        · split at hadd
          · cases hadd
          · split at hadd
            · cases hadd
            · obtain ⟨total, hcopy, hadd⟩ := bind_eq_ok hadd
              cases hadd
              obtain ⟨htotal, hbytes⟩ := copyChunks_eq_ok hcopy
              have hmember : Member.Confined sys selected ⟨name, info.content⟩ :=
                ⟨hplain, info, hentry, Decidable.not_not.1 hnlink, rfl⟩
              refine ⟨h.seen, ?_, ?_, ?_, ?_, hbytes h.bytes⟩
              · rw [List.map_append, List.map_singleton]
                refine List.nodup_append.2 ⟨h.names, List.nodup_singleton _, ?_⟩
                rintro _ hmem _ hname rfl
                obtain ⟨m, hm, hmname⟩ := List.mem_map.1 hmem
                exact hnew m hm (hmname.trans (List.mem_singleton.1 hname))
              · intro m hm
                rcases List.mem_append.1 hm with hm | hm
                · exact h.listed m hm
                · rw [List.mem_singleton.1 hm]; exact hseen
              · intro m hm
                rcases List.mem_append.1 hm with hm | hm
                · exact h.confined m hm
                · rw [List.mem_singleton.1 hm]; exact hmember
              · show total = contentBytes (run.archive ++ [⟨name, info.content⟩])
                rw [htotal, h.total, contentBytes, contentBytes, List.map_append, List.sum_append, RegularFile.content]
                simp only [List.map_cons, List.map_nil, List.sum_cons, List.sum_nil, Nat.add_zero]
    · cases hadd

/-- What adding nested paths keeps. -/
def NestedOk (sys : System) (selected : Path) (nested : Path → Bytes → Run → Except Failure Run) : Prop :=
  ∀ {base namePrefix run run'}, Below selected base namePrefix → run.Ok sys selected →
    nested base namePrefix run = .ok run' → run'.Ok sys selected

theorem Run.Ok.addNamed {nested : Path → Bytes → Run → Except Failure Run} {above : Path} {last : Bytes}
    (hnested : NestedOk sys selected nested) (hname : name.splitOn slash = above ++ (parts ++ [last]))
    (hplain : Plain (name.splitOn slash)) (h : run.Ok sys selected) (hseen : name ∈ run.seen)
    (hnew : ∀ m ∈ run.archive, m.name ≠ name)
    (hadd : addNamed sys nested (selected ++ above) parts last name run = .ok run') : run'.Ok sys selected := by
  have hparts : Plain parts := fun part hp => hplain part (by rw [hname]; simp [hp])
  have hlast : last ∉ forbiddenComponents := hplain last (by rw [hname]; simp)
  unfold Image.addNamed at hadd
  split at hadd
  · cases hadd; exact h
  · cases hadd
  · rename_i parent hparent
    have hpath : parent ++ [last] = selected ++ name.splitOn slash := by
      rw [openDir_eq_ok hparts hparent, hname]
      simp only [List.append_assoc]
    split at hadd
    · cases hadd
    · split at hadd
      · cases hadd; exact h
      · split at hadd
        · cases hadd
        · -- a nested repository: its names go on behind this one
          obtain ⟨child, hchild, hadd⟩ := bind_eq_ok hadd
          refine hnested ⟨name.splitOn slash, ?_, hplain, fun path => ?_⟩ h hadd
          · rw [openAt_eq_ok hlast hchild, hpath]
          · rw [List.append_assoc]
            exact List.splitOn_append_cons_self _ _
      · split at hadd
        · cases hadd
          exact ⟨h.seen, h.names, h.listed, h.confined, h.total, h.bytes⟩
        · rw [hpath] at hadd
          exact h.addFile hseen hnew hplain hadd
      · cases hadd
        exact ⟨h.seen, h.names, h.listed, h.confined, h.total, h.bytes⟩

theorem Run.Ok.addPath {nested : Path → Bytes → Run → Except Failure Run} (hnested : NestedOk sys selected nested)
    (hbase : Below selected base namePrefix) (h : run.Ok sys selected)
    (hadd : addPath sys nested base namePrefix run path = .ok run') : run'.Ok sys selected := by
  obtain ⟨above, rfl, habove, hsplit⟩ := hbase
  unfold Image.addPath at hadd
  obtain ⟨parts, hparts, hadd⟩ := bind_eq_ok hadd
  obtain ⟨hpath, hplain⟩ := components_eq_ok hparts
  split at hadd
  · cases hadd; exact h
  · rename_i last hlast
    dsimp only at hadd
    split at hadd
    · cases hadd; exact h
    · rename_i hnew
      split at hadd
      · cases hadd
      · rename_i hfew
        have hne : path ≠ [] := by
          rintro rfl
          rw [hpath] at hlast
          cases hlast
        rw [if_neg hne] at hpath
        have hname : (namePrefix ++ path).splitOn slash = above ++ (parts.dropLast ++ [last]) := by
          rw [hsplit, ← hpath, List.dropLast_append_getLast? last hlast]
        have hall : Plain ((namePrefix ++ path).splitOn slash) := by
          rw [hsplit, ← hpath]
          intro part hp
          rcases List.mem_append.1 hp with hp | hp
          · exact habove part hp
          · exact hplain part hp
        refine Run.Ok.addNamed hnested hname hall ?_ (List.mem_cons_self ..) ?_ hadd
        · exact ⟨Nat.le_of_not_lt hfew, h.names, fun m hm => List.mem_cons_of_mem _ (h.listed m hm), h.confined,
            h.total, h.bytes⟩
        · intro m hm hmname
          exact hnew (hmname ▸ h.listed m hm)

theorem addPaths_nestedOk (limit : Nat) (listing : Path → Listing) :
    NestedOk sys selected fun base => addPaths sys limit base (listing base) := by
  induction limit generalizing listing with
  | zero => exact fun _ _ hadd => by cases hadd
  | succ limit ih =>
    intro base namePrefix run run' hbase h hadd
    change addPaths sys (limit + 1) base (listing base) namePrefix run = .ok run' at hadd
    unfold addPaths at hadd
    obtain ⟨run₁, hfold, hadd⟩ := bind_eq_ok hadd
    split at hadd
    · cases hadd
    · cases hadd
      refine foldlM_keeps (P := fun run => run.Ok sys selected) (fun path _ run run' h hpath => ?_) h hfold
      exact h.addPath (ih (gitPaths sys)) hbase hpath

/-! ## The temporary directory -/

variable {temp temp' : Temp} {a b p : Text}

/-- `os.path.split` takes apart what `os.path.join` put together. -/
theorem pathSplit_join (ha : a ≠ [] ∧ (a.all (· = '/') = true ∨ a.getLast? ≠ some '/')) (hb : '/' ∉ b) :
    pathSplit (pathJoin a b) = (a, b) := by
  have hhead : b.head? ≠ some '/' := fun h => hb (List.mem_of_mem_head? h)
  have hrev : ∀ c ∈ b.reverse, decide (c ≠ '/') = true := fun c hc => decide_eq_true fun h =>
    hb (h ▸ List.mem_reverse.1 hc)
  have htail : ∀ rest : Text, (b.reverse ++ '/' :: rest).takeWhile (· ≠ '/') = b.reverse ∧
      (b.reverse ++ '/' :: rest).dropWhile (· ≠ '/') = '/' :: rest := by
    intro rest
    constructor
    · rw [List.takeWhile_append_of_pos hrev, List.takeWhile_cons_of_neg (by decide), List.append_nil]
    · rw [List.dropWhile_append_of_pos hrev, List.dropWhile_cons_of_neg (by decide)]
  unfold pathJoin pathSplit
  rw [if_neg hhead]
  by_cases hlast : a.getLast? = some '/'
  · -- the root: its slashes stay
    obtain ⟨a', rfl⟩ := List.getLast?_eq_some_iff.1 hlast
    rw [if_pos (.inr hlast)]
    have hall : (a' ++ ['/']).all (· = '/') = true := ha.2.resolve_right (not_not.2 hlast)
    simp only [List.append_assoc, List.reverse_append, List.reverse_cons, List.reverse_nil, List.nil_append,
      List.cons_append, (htail a'.reverse).1, (htail a'.reverse).2, List.reverse_reverse]
    rw [if_pos hall]
  · rw [if_neg (not_or.2 ⟨ha.1, hlast⟩)]
    simp only [List.reverse_append, List.reverse_cons, List.append_assoc, List.cons_append, List.nil_append,
      (htail a.reverse).1, (htail a.reverse).2, List.reverse_reverse]
    rcases List.eq_nil_or_concat' a with rfl | ⟨a', c, rfl⟩
    · exact absurd rfl ha.1
    · have hc : c ≠ '/' := fun h => hlast (by rw [h, List.getLast?_concat])
      have hall : ((a' ++ [c]) ++ ['/']).all (· = '/') = false := by
        simp [hc]
      rw [if_neg (by rw [List.append_assoc] at hall; simpa using hall)]
      simp [hc]

theorem pathJoin_normal (hb : b ≠ [] ∧ '/' ∉ b) :
    pathJoin a b ≠ [] ∧ ((pathJoin a b).all (· = '/') = true ∨ (pathJoin a b).getLast? ≠ some '/') := by
  obtain ⟨hne, hslash⟩ := hb
  obtain ⟨b', c, rfl⟩ := (List.eq_nil_or_concat' b).resolve_left hne
  have hc : c ≠ '/' := fun h => hslash (by rw [h]; simp)
  unfold pathJoin
  split
  · exact ⟨hne, .inr (by simpa using hc)⟩
  · split
    · exact ⟨by simp, .inr (by simpa using hc)⟩
    · exact ⟨by simp, .inr (by rw [← List.cons_append, ← List.append_assoc, List.getLast?_concat]; simpa using hc)⟩

theorem slash_not_mem_exportPrefix : '/' ∉ exportPrefix := by decide

/-- What `mkdtemp` made, `cleanup` removes. -/
theorem cleanup_mkdtemp {temporary : Text} (h : mkdtemp sys temp = some (temporary, temp')) (zip : Bool) :
    cleanup sys (pathJoin temporary projectZip) (temp'.insert (pathSplit temporary).2 zip) = .ok temp := by
  unfold mkdtemp at h
  obtain ⟨name, hfind, heq⟩ := Option.map_eq_some_iff.1 h
  obtain ⟨rfl, rfl⟩ := Prod.mk.inj heq
  obtain ⟨random, hrandom, rfl⟩ := List.mem_map.1 (List.mem_of_find?_eq_some hfind)
  have hfree : temp.contains (exportPrefix ++ random) = false := by simpa using List.find?_some hfind
  have hplain : '/' ∉ exportPrefix ++ random := fun hmem => (List.mem_append.1 hmem).elim slash_not_mem_exportPrefix
    (sys.randomNames_plain random hrandom)
  have hname : exportPrefix ++ random ≠ [] := by
    intro h
    have hempty : exportPrefix = [] := (List.append_eq_nil_iff.1 h).1
    exact absurd hempty (by decide)
  have hsplit : pathSplit (pathJoin sys.tempdir (exportPrefix ++ random)) = (sys.tempdir, exportPrefix ++ random) :=
    pathSplit_join sys.tempdir_normal hplain
  have hzip : pathSplit (pathJoin (pathJoin sys.tempdir (exportPrefix ++ random)) projectZip) =
      (pathJoin sys.tempdir (exportPrefix ++ random), projectZip) :=
    pathSplit_join (pathJoin_normal ⟨hname, hplain⟩) (by decide)
  have hprefix : exportPrefix.isPrefixOf (exportPrefix ++ random) = true :=
    List.isPrefixOf_iff_prefix.2 (List.prefix_append _ _)
  have hcontains : (exportPrefix ++ random).contains '/' = false := by
    rw [← Bool.not_eq_true, List.contains_iff_mem]
    exact hplain
  unfold cleanup
  rw [hzip]
  dsimp only
  rw [hsplit]
  dsimp only
  rw [if_neg (by simp), hprefix, hcontains]
  -- the name was free before
  have herase : ((temp.insert (exportPrefix ++ random) false).insert (exportPrefix ++ random) zip).erase
      (exportPrefix ++ random) = temp := by
    refine ExtTreeMap.ext_getElem? fun name => ?_
    rw [Maps.getElem?_erase, Maps.getElem?_insert, Maps.getElem?_insert]
    by_cases hn : exportPrefix ++ random = name
    · rw [if_pos hn, ← hn, eq_comm, ← Option.not_isSome_iff_eq_none, ← ExtTreeMap.contains_eq_isSome_getElem?, hfree]
      exact Bool.false_ne_true
    · rw [if_neg hn, if_neg hn, if_neg hn]
  rw [herase]
  rfl

/-! ## Every export -/

/-- What an archive of a folder holds. -/
structure Exported.Confined (sys : System) (folder : Path) (exported : Exported) : Prop where
  names : (exported.archive.map Member.name).Nodup
  members : ∀ m ∈ exported.archive, m.Confined sys folder
  files : exported.archive.length ≤ maxFiles
  bytes : contentBytes exported.archive ≤ maxBytes
  reported : exported.sourceBytes = contentBytes exported.archive

theorem openSelected_eq_ok {folder : Bytes} (h : openSelected sys folder = .ok selected) :
    ∃ root parts, sys.root = some root ∧ components folder = .ok parts ∧ selected = root ++ parts := by
  unfold openSelected at h
  split at h
  · cases h
  · rename_i root hroot
    split at h
    · obtain ⟨parts, hparts, h⟩ := bind_eq_ok h
      exact ⟨root, parts, hroot, hparts, openDir_eq_ok (components_eq_ok hparts).2 h⟩
    · cases h

theorem writeArchive_eq_ok {includeIgnored : Bool} (h : writeArchive sys selected includeIgnored = .ok run) :
    run.Ok sys selected := by
  unfold writeArchive at h
  dsimp only at h
  split at h
  · cases h
  · obtain ⟨run', hrun, h⟩ := bind_eq_ok h
    split at h <;> cases h
    exact addPaths_nestedOk _ (fun _ => if includeIgnored then walkFrom sys selected else gitPaths sys selected)
      Below.refl .empty hrun

theorem Run.Ok.length_le (h : run.Ok sys selected) : run.archive.length ≤ maxFiles := by
  have hsub : run.archive.map Member.name ⊆ run.seen := by
    intro name hname
    obtain ⟨m, hm, rfl⟩ := List.mem_map.1 hname
    exact h.listed m hm
  have hlen := (List.subperm_of_subset h.names hsub).length_le
  rw [List.length_map] at hlen
  exact hlen.trans h.seen

/-- An export leaves the temporary directory as it was, or its archive is confined to the folder it was asked for. -/
theorem export_confined (sys : System) (folder : Bytes) (includeIgnored : Bool) (temp : Temp) :
    match create sys folder includeIgnored temp with
    | (.error _, temp') => temp' = temp
    | (.ok exported, _) => ∃ root parts, sys.root = some root ∧ components folder = .ok parts ∧
        exported.Confined sys (root ++ parts) := by
  unfold create
  cases hselected : openSelected sys folder with
  | error e => rfl
  | ok selected =>
    dsimp only
    cases hmk : mkdtemp sys temp with
    | none => rfl
    | some made =>
      obtain ⟨temporary, temp'⟩ := made
      dsimp only
      cases hwrite : writeArchive sys selected includeIgnored with
      | error e =>
        dsimp only
        rw [cleanup_mkdtemp hmk]
      | ok run =>
        obtain ⟨root, parts, hroot, hparts, rfl⟩ := openSelected_eq_ok hselected
        have hrun := writeArchive_eq_ok hwrite
        exact ⟨root, parts, hroot, hparts, hrun.names, hrun.confined, hrun.length_le, hrun.total ▸ hrun.bytes, hrun.total⟩

/-- A project with a link out of it, a file with two links and a nested repository. -/
def sampleSystem : System where
  fs := .dir [(bytes "etc", .dir [(bytes "passwd", .file ⟨1, 1, [[0]]⟩)]),
    (bytes "p", .dir [(bytes "a", .file ⟨1, 2, [[1], [2]]⟩), (bytes "b", .file ⟨2, 1, [[3]]⟩),
      (bytes "up", .link (bytes "/etc")), (bytes "n", .dir [(bytes "c", .file ⟨1, 1, [[4]]⟩)])])]
  root := some [bytes "p"]
  git fd := if fd = [bytes "p"] then some ⟨[bytes "a" ++ [0] ++ bytes "b" ++ [0] ++ bytes "up" ++ [0], bytes "n/" ++ [0]], 0⟩
    else some ⟨[bytes "c" ++ [0]], 0⟩
  denied _ _ := false
  folderDenied _ := false
  listDenied _ := false
  recursionLimit := 10
  zipOpens := true
  zipCloses := true
  tempdir := "/tmp".toList
  tempdir_normal := by decide
  randomNames := ["a1".toList]
  randomNames_plain := by decide

example : (create sampleSystem [] false ∅).1.toOption.map (fun e => (e.archive.map Member.name, e.skippedFiles)) =
    some ([bytes "a", bytes "n/c"], 2) := by decide

end Zedspaces.Image
