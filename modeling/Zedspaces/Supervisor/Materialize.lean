/-
The setup of a repository keeps the user's files. `Protects` is what every step of a boot must keep: once `clone.done`
stands, nothing under the workspace directory goes or changes, and `clone.done` is written only where a complete
checkout stands. A boot keeps it from every disk in `Settled` (`materializeRepo_meets`): until the checkout is placed,
nothing stands under the directory that the marker vouches for (`Vacant`); from then on every call spares the
directory.
-/
import Zedspaces.Supervisor.Bootstrap

namespace Zedspaces.Supervisor.Bootstrap

open Lib Lib.Files

variable {D : Dirs} {W : World} {m : Manifest} {i : Op} {w : Outcome} {d d' : Disk} {o : Option Reply}
variable {dir p q a b : Path} {t : Tree} {k : Kind}

/-! ## What a step of an operation can do -/

/-- The paths whose entry a step of the operation may take away or change. -/
def Op.Clobbers : Op → Path → Prop
  | .removeDirAll p, q => p <+: q
  | .removeFile p, q => p <+: q
  | .rename src dst, q => src <+: q ∨ dst <+: q
  | .git _ _ dir, q => dir <+: q
  | .extract _ dir, q => dir <+: q
  | _, _ => False

/-- The paths where it may write an entry that was not there. -/
def Op.Creates : Op → Path → Prop
  | .createDirAll p, q => q <+: p
  | .rename _ dst, q => dst <+: q
  | .copyTree _ dst, q => dst <+: q
  | .git _ _ dir, q => dir <+: q
  | .extract _ dir, q => dir <+: q
  | _, _ => False

/-- One step of any operation. -/
theorem device_frame (h : device W i w d = some (d', o)) : Frame i.Clobbers i.Creates d.fs d'.fs := by
  revert h
  fun_cases device W i w d <;> rintro ⟨⟩
  all_goals first
    | exact frame_refl
    | exact frame_clear fun q hq => hq
    | exact frame_clear fun q hq => List.IsPrefix.trans (And.left (And.right ‹_›)) hq
    | exact frame_erase List.prefix_rfl
    | exact frame_put (And.right ‹_›) (And.left ‹_›)
    | exact frame_mkdirAll fun q hq => hq
    | exact frame_graft fun q hq => ⟨hq, hq⟩
    | exact frame_move (fun q hq => .inl hq) fun q hq => ⟨.inr hq, hq⟩

theorem device_marker (h : device W i w d = some (d', o)) (hi : i ≠ .setCloneDone) : d'.cloneDone = d.cloneDone := by
  revert h
  fun_cases device W i w d <;> rintro ⟨⟩
  all_goals first
    | rfl
    | exact absurd rfl hi

theorem device_rename (h : device W (.rename a b) w d = some (d', o)) :
    d' = d ∧ (∃ e, o = some (.error e)) ∨ d' = ⟨move a b d.fs, d.cloneDone⟩ ∧ o = some (.ok []) := by
  cases w with
  | fail =>
    cases h
    exact .inl ⟨rfl, _, rfl⟩
  | done =>
    obtain ⟨-, h⟩ | ⟨-, h⟩ := ite_eq_iff.1 h
    · cases h
      exact .inr ⟨rfl, rfl⟩
    · cases h
      exact .inl ⟨rfl, _, rfl⟩
  | _ => cases h

theorem device_copyTree {r : Reply} (h : device W (.copyTree a b) w d = some (d', some r)) :
    d' = d ∧ ∀ words, r = .ok words → carried (subtree a d.fs) b d.fs = true := by
  cases w with
  | fail =>
    cases h
    exact ⟨rfl, by rintro _ ⟨⟩⟩
  | done =>
    obtain ⟨hcarried, h⟩ := Option.ite_none_right_eq_some.1 h
    cases h
    exact ⟨rfl, fun _ _ => hcarried⟩
  | write q k =>
    obtain ⟨-, h⟩ := Option.ite_none_right_eq_some.1 h
    cases h
  | _ => cases h

theorem device_readDir {r : Reply} (h : device W (.readDir p) w d = some (d', some r)) :
    d' = d ∧ ∀ names, r = .ok names → names = children d.fs p := by
  cases w with
  | fail =>
    cases h
    exact ⟨rfl, by rintro _ ⟨⟩⟩
  | done =>
    obtain ⟨-, h⟩ | ⟨-, h⟩ := ite_eq_iff.1 h
    · cases h
      exact ⟨rfl, by rintro _ ⟨⟩; rfl⟩
    · cases h
      exact ⟨rfl, by rintro _ ⟨⟩⟩
  | _ => cases h

/-- A `git switch` that succeeds leaves a complete checkout. -/
theorem device_git {repo : RepoSpec} {args : List Text} {words : List Text} (hargs : isSwitch args = true)
    (h : device W (.git repo args p) w d = some (d', some (.ok words))) :
    W.checkedOut repo (subtree p d'.fs) = true := by
  cases w with
  | exit t digest =>
    obtain ⟨hchecked, h⟩ := Option.ite_none_right_eq_some.1 h
    cases h
    rw [subtree_graft]
    exact hchecked hargs
  | _ => cases h

theorem device_setCloneDone (h : device W .setCloneDone w d = some (d', o)) : d'.fs = d.fs := by
  cases w with
  | fail =>
    cases h
    rfl
  | done =>
    cases h
    rfl
  | _ => cases h

/-- Every entry of a tree stands at and below a path. -/
def Stands (t : Tree) (p : Path) (fs : Tree) : Prop := ∀ r k, kind t r = some k → kind fs (p ++ r) = some k

theorem stands_of_carried (h : carried t p d.fs = true) : Stands t p d.fs := by
  intro r k hk
  have hr := List.all_eq_true.1 h _ (mem_of_kind hk)
  exact (of_decide_eq_true hr).trans hk

/-- A `tar` that succeeds leaves every entry of the archive. -/
theorem device_extract {spec : RestoreSpec} {words : List Text}
    (h : device W (.extract spec p) w d = some (d', some (.ok words))) : Stands (W.archive spec) p d'.fs := by
  cases w with
  | exit t digest =>
    obtain ⟨hcarried, h⟩ := Option.ite_none_right_eq_some.1 h
    cases h
    intro r k hk
    show kind (graft p t d.fs) (p ++ r) = some k
    rw [kind_graft_append]
    exact stands_of_carried (d := ⟨t, false⟩) hcarried r k hk
  | _ => cases h

/-! ## The guarantee -/

/-- Where `clone.done` stands, nothing under the directory goes or changes. -/
def Keeps (dir : Path) (d d' : Disk) : Prop :=
  d.cloneDone = true → ∀ q k, Under dir q → kind d.fs q = some k → kind d'.fs q = some k

/-- The checkout is complete: as `git switch` left it, or as the archive carries it. -/
def Complete (D : Dirs) (W : World) (m : Manifest) (d : Disk) : Prop :=
  match m.restore with
  | none => W.checkedOut m.repo (subtree (workspaceDir m) d.fs) = true
  | some spec => kind d.fs (workspaceDir m) = some .dir ∧
      Stands (subtree (workspacesName :: relDir D m) (W.archive spec)) (workspaceDir m) d.fs

/-- What a step of an operation from one disk to the next keeps. -/
def Protects (D : Dirs) (W : World) (m : Manifest) (i : Op) (d d' : Disk) : Prop :=
  Keeps (workspaceDir m) d d' ∧ (i = .setCloneDone → Complete D W m d)

/-- The marker does not stand, or nothing does under the directory. -/
def Vacant (dir : Path) (d : Disk) : Prop := d.cloneDone = true → ∀ q, Under dir q → kind d.fs q = none

/-- The configured directories that a restore writes to lie apart from the workspaces directory. -/
structure Dirs.Apart (D : Dirs) : Prop where
  restore : Files.Apart D.workspacesDir D.restoreDir
  data : Files.Apart D.workspacesDir D.dataDir
  kernels : Files.Apart D.workspacesDir (D.home ++ kernels)
  settings : Files.Apart D.workspacesDir (D.home ++ zedSettings)

/-- The archive carries a directory, and its parents. -/
def Carries (archive : Tree) (path : Path) : Prop := ∀ p, p ≠ [] → p <+: path → kind archive p = some .dir

/-- The disks from which the boot of a manifest keeps the user's files. -/
def Settled (D : Dirs) (W : World) (m : Manifest) (d : Disk) : Prop :=
  alreadyPresent D m d = true ∨
    D.Apart ∧ Vacant (workspaceDir m) d ∧
      ∀ spec, m.restore = some spec → Carries (W.archive spec) (workspacesName :: relDir D m)

/-! ## Calls that spare the directory -/

/-- The operation leaves alone what stands under the directory and what stands at and under `p`. -/
structure Spares (dir p : Path) (i : Op) : Prop where
  unmarked : i ≠ .setCloneDone
  creates : ∀ q, Under dir q → ¬ i.Creates q
  clobbers : ∀ q, Under dir q ∨ p <+: q → ¬ i.Clobbers q

/-- Where nothing stands under the directory that the marker vouches for, every step will do. -/
theorem protects_of_vacant (hi : i ≠ .setCloneDone) (h : Vacant (workspaceDir m) d) : Protects D W m i d d' := by
  refine ⟨fun hdone q k hq hk => ?_, fun hset => absurd hset hi⟩
  cases (h hdone q hq).symm.trans hk

/-- A call that writes nothing under the directory, where the marker vouches for nothing there. -/
theorem stable_empty (hi : i ≠ .setCloneDone) (hc : ∀ q, Under (workspaceDir m) q → ¬ i.Creates q) :
    Prog.Stable (device W) (Protects D W m) (Vacant (workspaceDir m)) i := by
  intro d w d' o hvacant h
  refine ⟨protects_of_vacant hi hvacant, fun hdone q hq => ?_⟩
  rw [device_marker h hi] at hdone
  exact (device_frame h).vacant q (hc q hq) (hvacant hdone q hq)

theorem stable_vacant (hi : i ≠ .setCloneDone) (hc : ∀ q, Under (workspaceDir m) q → ¬ i.Creates q)
    (hp : ∀ q, p <+: q → ¬ i.Clobbers q) :
    Prog.Stable (device W) (Protects D W m) (fun d => Vacant (workspaceDir m) d ∧ Stands t p d.fs) i := by
  rintro d w d' o ⟨hvacant, hstands⟩ h
  obtain ⟨hprotects, hvacant⟩ := stable_empty hi hc d w d' o hvacant h
  refine ⟨hprotects, hvacant, fun r k hk => ?_⟩
  exact (device_frame h).keeps _ k (hp _ (List.prefix_append ..)) (hstands r k hk)

/-- A call that takes nothing from under the directory. -/
theorem stable_stands (hi : i ≠ .setCloneDone) (hu : ∀ q, Under (workspaceDir m) q → ¬ i.Clobbers q)
    (hp : ∀ q, p <+: q → ¬ i.Clobbers q) :
    Prog.Stable (device W) (Protects D W m) (fun d => Stands t p d.fs) i := by
  intro d w d' o hstands h
  have hframe := device_frame h
  refine ⟨⟨fun _ q k hq hk => hframe.keeps q k (hu q hq) hk, fun hset => absurd hset hi⟩, fun r k hk => ?_⟩
  exact hframe.keeps _ k (hp _ (List.prefix_append ..)) (hstands r k hk)

theorem Spares.vacant (h : Spares (workspaceDir m) p i) :
    Prog.Stable (device W) (Protects D W m) (fun d => Vacant (workspaceDir m) d ∧ Stands t p d.fs) i :=
  stable_vacant h.unmarked h.creates fun q hq => h.clobbers q (.inr hq)

theorem Spares.stands (h : Spares (workspaceDir m) p i) :
    Prog.Stable (device W) (Protects D W m) (fun d => Stands t p d.fs) i :=
  stable_stands h.unmarked (fun q hq => h.clobbers q (.inl hq)) fun q hq => h.clobbers q (.inr hq)

section
variable {x y : Path}

theorem not_prefix_of_apart (hd : Apart x dir) (hp : Apart x p) : ∀ q, Under dir q ∨ p <+: q → ¬ x <+: q := by
  rintro q (hq | hq) hx
  · exact hd.not_both hx hq.1
  · exact hp.not_both hx hq

theorem spares_removeDirAll (hd : Apart x dir) (hp : Apart x p) : Spares dir p (.removeDirAll x) :=
  ⟨Op.noConfusion, fun _ _ => id, not_prefix_of_apart hd hp⟩

theorem spares_removeFile (hd : Apart x dir) (hp : Apart x p) : Spares dir p (.removeFile x) :=
  ⟨Op.noConfusion, fun _ _ => id, not_prefix_of_apart hd hp⟩

theorem spares_createDirAll (h : ¬ dir <+: x) : Spares dir p (.createDirAll x) :=
  ⟨Op.noConfusion, fun _ hq hx => h (hq.1.trans hx), fun _ _ => id⟩

theorem spares_readDir : Spares dir p (.readDir x) := ⟨Op.noConfusion, fun _ _ => id, fun _ _ => id⟩

theorem spares_git {repo : RepoSpec} {args : List Text} (hd : Apart x dir) (hp : Apart x p) :
    Spares dir p (.git repo args x) :=
  ⟨Op.noConfusion, fun _ hq hx => hd.not_both hx hq.1, not_prefix_of_apart hd hp⟩

theorem spares_extract {spec : RestoreSpec} (hd : Apart x dir) (hp : Apart x p) : Spares dir p (.extract spec x) :=
  ⟨Op.noConfusion, fun _ hq hx => hd.not_both hx hq.1, not_prefix_of_apart hd hp⟩

theorem spares_rename (hxd : Apart x dir) (hxp : Apart x p) (hyd : Apart y dir) (hyp : Apart y p) :
    Spares dir p (.rename x y) :=
  ⟨Op.noConfusion, fun _ hq hy => hyd.not_both hy hq.1, fun q hq h =>
    h.elim (not_prefix_of_apart hxd hxp q hq) (not_prefix_of_apart hyd hyp q hq)⟩

theorem spares_copyTree (hyd : Apart y dir) : Spares dir p (.copyTree x y) :=
  ⟨Op.noConfusion, fun _ hq hy => hyd.not_both hy hq.1, fun _ _ => id⟩

end

/-! ## The operations of each part of the program -/

section
variable {P : Op → Prop} {x : Path}

theorem only_call (h : P i) : Prog.Only P (call i) := by
  refine Prog.All.bind (fun _ => ?_) ⟨h, fun _ => trivial⟩
  exact trivial

theorem only_call' (h : P i) : Prog.Only P (call' i) := Prog.only_bind (only_call h) fun _ => Prog.only_pure

theorem only_removeTree (h : P (.removeDirAll x)) : Prog.Only P (removeTree x) := by
  refine Prog.All.bind (fun r => ?_) ⟨h, fun _ => trivial⟩
  rcases r with (_ | _) | _ <;> exact trivial

theorem only_clearPlace (hdir : P (.removeDirAll x)) (hfile : P (.removeFile x)) : Prog.Only P (clearPlace x) := by
  refine Prog.only_bind Prog.only_look fun kind => ?_
  rcases kind with _ | (_ | _ | _)
  · exact Prog.only_pure
  · exact only_call' hfile
  · exact only_call' hdir
  · exact only_call' hfile

/-- A move spares the directory where neither end of it lies at, under or above it. -/
theorem only_movePath {base : Path} {rest : List Text} {dst : Path} (had : Apart (base ++ rest) dir)
    (hap : Apart (base ++ rest) p) (hbd : Apart dst dir) (hbp : Apart dst p) :
    Prog.Only (Spares dir p) (movePath base rest dst) := by
  have hparent : ¬ dir <+: dst.dropLast := fun h => hbd.2 (h.trans (List.dropLast_prefix _))
  refine Prog.only_bind (only_clearPlace (spares_removeDirAll hbd hbp) (spares_removeFile hbd hbp)) fun _ => ?_
  refine Prog.only_bind (only_call' (spares_createDirAll hparent)) fun _ => ?_
  refine Prog.only_bind (Prog.only_capture (only_call (spares_rename had hap hbd hbp))) fun r => ?_
  cases r with
  | ok _ => exact Prog.only_pure
  | error _ =>
    refine Prog.only_bind (only_call' (spares_copyTree hbd)) fun _ => Prog.only_bind Prog.only_look fun isDir => ?_
    cases isDir
    · exact only_call' (spares_removeFile had hap)
    · exact only_call' (spares_removeDirAll had hap)

end

/-! ## The clone -/

/-- The judgement of this module. -/
abbrev Runs (D : Dirs) (W : World) (m : Manifest) {α : Type} (p : Setup α) (Q : α → Disk → Prop) (d : Disk) : Prop :=
  Prog.Does (device W) (Protects D W m) p Q d

theorem meets_call {R : Except Failure (List Text) → Disk → Prop}
    (h : Prog.Meets (device W) (Protects D W m) (Prog.perform i) (fun r => R (r.mapError .io)) d) :
    Prog.Meets (device W) (Protects D W m) (call i).run R d :=
  Prog.meets_bind (Prog.meets_mono (fun _ _ hr => hr) h)

theorem runs_call {Q : List Text → Disk → Prop}
    (h : Prog.Meets (device W) (Protects D W m) (Prog.perform i) (fun r d => ∀ words, r = .ok words → Q words d) d) :
    Runs D W m (call i) Q d := by
  refine meets_call (Prog.meets_mono (fun r d hr => ?_) h)
  cases r with
  | error e => rintro _ ⟨⟩
  | ok words =>
    rintro _ ⟨⟩
    exact hr words rfl

theorem runs_call' {Q : Disk → Prop}
    (h : Prog.Meets (device W) (Protects D W m) (Prog.perform i) (fun r d => ∀ words, r = .ok words → Q d) d) :
    Runs D W m (call' i) (fun _ => Q) d :=
  Prog.does_bind (Prog.does_mono (runs_call h) fun _ _ hq => Prog.does_pure hq)

theorem stands_nil : Stands [] p d.fs := by rintro _ _ ⟨⟩

/-- Calls that spare the directory, where nothing stands under it. -/
theorem runs_vacant {x : Setup Unit} (hx : Prog.Only (Spares (workspaceDir m) (workspaceDir m)) x)
    (hd : Vacant (workspaceDir m) d) : Runs D W m x (fun _ => Vacant (workspaceDir m)) d :=
  Prog.does_of_only (Prog.All.mono (fun _ hi => stable_empty hi.unmarked hi.creates) hx) hd

/-- Calls that spare the directory, anywhere. -/
theorem runs_anywhere {x : Setup Unit} (hx : Prog.Only (Spares (workspaceDir m) (workspaceDir m)) x) :
    Runs D W m x (fun _ _ => True) d := by
  have hstable := Prog.All.mono (fun i hi => Spares.stands (D := D) (W := W) (t := []) hi) hx
  exact Prog.does_mono (Prog.does_of_only hstable stands_nil) fun _ _ _ => trivial

theorem isSwitch_switchArgs (branch : Option Text) : isSwitch (switchArgs branch) = true := by
  cases branch <;> rfl

theorem runs_cloneInto {staging : Path} {repo : RepoSpec} {plan : FetchPlan} (hs : Apart staging (workspaceDir m))
    (hd : Vacant (workspaceDir m) d) : Runs D W m (cloneInto staging repo plan)
      (fun _ d => Vacant (workspaceDir m) d ∧ W.checkedOut repo (subtree staging d.fs) = true) d := by
  have hgit : ∀ args, Spares (workspaceDir m) (workspaceDir m) (.git repo args staging) := fun _ => spares_git hs hs
  refine Prog.does_bind (Prog.does_mono (runs_vacant (only_call' (spares_createDirAll hs.2)) hd) fun _ d hd => ?_)
  refine Prog.does_bind (Prog.does_mono (runs_vacant (only_call' (hgit _)) hd) fun _ d hd => ?_)
  refine Prog.does_bind (Prog.does_mono (runs_vacant (only_call' (hgit _)) hd) fun _ d hd => ?_)
  refine Prog.does_bind (Prog.does_mono (runs_vacant (only_call' (hgit _)) hd) fun _ d hd => ?_)
  refine runs_call' (Prog.meets_perform (Vacant (workspaceDir m)) hd fun c w c' o hc hstep => ?_)
  obtain ⟨hkeeps, hvacant⟩ := stable_empty (D := D) (hgit _).unmarked (hgit _).creates c w c' o hc hstep
  refine ⟨hkeeps, fun _ => hvacant, ?_⟩
  rintro r rfl words rfl
  exact ⟨hvacant, device_git (isSwitch_switchArgs _) hstep⟩

/-- The marker is written where the checkout is complete. -/
theorem runs_setCloneDone (h : Complete D W m d) : Runs D W m (call' .setCloneDone) (fun _ _ => True) d := by
  refine runs_call' (Prog.meets_perform (Complete D W m) h fun c w c' o hc hstep => ?_)
  have hfs := device_setCloneDone hstep
  refine ⟨⟨fun _ q k _ hk => hfs ▸ hk, fun _ => hc⟩, fun _ => ?_, fun _ _ _ _ => trivial⟩
  unfold Complete at hc ⊢
  rw [hfs]
  exact hc

theorem partialDir_apart {name : Text} : Apart (partialDir (p ++ [name])) (p ++ [name]) := by
  rw [partialDir, List.dropLast_concat, List.getLast?_concat]
  refine apart_siblings fun h => ?_
  have hlen := congrArg List.length h
  rw [Option.getD_some, List.length_append] at hlen
  have hdot : 0 < ".partial".toList.length := by decide
  omega

theorem staging_apart (hdir : workspaceDir m ≠ []) : Apart (partialDir (workspaceDir m)) (workspaceDir m) := by
  obtain h | ⟨parent, name, h⟩ := List.eq_nil_or_concat' (workspaceDir m)
  · exact absurd h hdir
  · rw [h]
    exact partialDir_apart

/-- A directory is not above its parent. -/
theorem not_prefix_dropLast (h : p ≠ []) : ¬ p <+: p.dropLast := by
  intro hpre
  have hlen := hpre.length_le
  rw [List.length_dropLast] at hlen
  have hpos := List.length_pos_iff.2 h
  omega

theorem runs_materializeFromClone (hdir : workspaceDir m ≠ []) (hclone : m.restore = none)
    (hd : Vacant (workspaceDir m) d) : Runs D W m (materializeFromClone m) (fun _ _ => True) d := by
  have hs := staging_apart hdir
  have hparent := spares_createDirAll (p := workspaceDir m) (not_prefix_dropLast hdir)
  refine Prog.does_bind (Prog.does_mono (runs_vacant (only_call' hparent) hd) fun _ d hd => ?_)
  refine Prog.does_bind (Prog.does_mono (Prog.does_capture (runs_cloneInto hs hd)) fun r d hr => ?_)
  cases r with
  | error e =>
    have hremove := Prog.only_attempt (only_removeTree (spares_removeDirAll hs hs))
    exact Prog.does_bind (Prog.does_mono (runs_anywhere hremove) fun _ _ _ => Prog.does_throw)
  | ok u =>
    obtain ⟨hd, hchecked⟩ := hr u rfl
    refine Prog.does_bind (Prog.does_mono (runs_call' (Q := Complete D W m) ?_) fun _ _ hc => runs_setCloneDone hc)
    refine Prog.meets_perform (fun d => Vacant (workspaceDir m) d ∧
      W.checkedOut m.repo (subtree (partialDir (workspaceDir m)) d.fs) = true) ⟨hd, hchecked⟩ ?_
    rintro c w c' o ⟨hc, hchecked⟩ hstep
    refine ⟨protects_of_vacant Op.noConfusion hc, ?_⟩
    rcases device_rename hstep with ⟨-, e, rfl⟩ | ⟨rfl, rfl⟩
    · exact ⟨nofun, by rintro _ ⟨⟩ _ ⟨⟩⟩
    · refine ⟨nofun, fun _ _ _ _ => ?_⟩
      rw [Complete, hclone]
      show W.checkedOut m.repo (subtree _ (move _ _ c.fs)) = true
      rw [subtree_move]
      exact hchecked

/-! ## The restore -/

/-- The move of the entry that carries the checkout: whatever stood there goes, where the marker vouches for nothing,
and the entry stands there afterwards, renamed or copied. -/
theorem runs_place {first : Text} (hA : D.Apart) (hdir : D.workspacesDir ++ [first] <+: workspaceDir m)
    (hd : Vacant (workspaceDir m) d) (hs : Stands t (D.restoreDir ++ [workspacesName, first]) d.fs) :
    Runs D W m (movePath D.restoreDir [workspacesName, first] (D.workspacesDir ++ [first]))
      (fun _ d => Stands t (D.workspacesDir ++ [first]) d.fs) d := by
  have hapart : Apart (D.restoreDir ++ [workspacesName, first]) (D.workspacesDir ++ [first]) :=
    (hA.restore.symm.under (List.prefix_append ..)).under_right (List.prefix_append ..)
  have hclear : ∀ q, D.restoreDir ++ [workspacesName, first] <+: q → ¬ D.workspacesDir ++ [first] <+: q :=
    fun q hq => hapart.not_both hq
  refine Prog.does_bind (Prog.does_mono (Prog.does_of_only (J := fun d => Vacant (workspaceDir m) d ∧
    Stands t (D.restoreDir ++ [workspacesName, first]) d.fs) ?_ ⟨hd, hs⟩) fun _ d hd => ?_)
  · exact only_clearPlace (stable_vacant Op.noConfusion (fun _ _ => id) hclear)
      (stable_vacant Op.noConfusion (fun _ _ => id) hclear)
  refine Prog.does_bind (Prog.does_mono (Prog.does_of_only (J := fun d => Vacant (workspaceDir m) d ∧
    Stands t (D.restoreDir ++ [workspacesName, first]) d.fs) ?_ hd) fun _ d hd => ?_)
  · refine only_call' (stable_vacant Op.noConfusion (fun q hq hpre => ?_) fun _ _ => id)
    exact not_prefix_dropLast (by simp) ((hdir.trans hq.1).trans hpre)
  refine Prog.does_bind (Prog.does_mono (Prog.does_capture (meets_call (R := fun r d =>
    (∀ words, r = .ok words → Stands t (D.workspacesDir ++ [first]) d.fs) ∧
    (∀ e, r = .error e → Stands t (D.restoreDir ++ [workspacesName, first]) d.fs)) ?_)) fun r d hr => ?_)
  · refine Prog.meets_perform (fun d => Vacant (workspaceDir m) d ∧
      Stands t (D.restoreDir ++ [workspacesName, first]) d.fs) hd ?_
    rintro c w c' o ⟨hvacant, hstands⟩ hstep
    refine ⟨protects_of_vacant Op.noConfusion hvacant, ?_⟩
    rcases device_rename hstep with ⟨rfl, e, rfl⟩ | ⟨rfl, rfl⟩
    · refine ⟨nofun, ?_⟩
      rintro _ ⟨⟩
      exact ⟨by rintro _ ⟨⟩, fun _ _ => hstands⟩
    · refine ⟨nofun, ?_⟩
      rintro _ ⟨⟩
      refine ⟨fun _ _ r k hk => ?_, by rintro _ ⟨⟩⟩
      show kind (move _ _ c.fs) _ = some k
      rw [kind_move_append]
      exact hstands r k hk
  cases r with
  | ok words => exact Prog.does_pure (hr.1 words rfl)
  | error e =>
    refine Prog.does_bind (Prog.does_mono (runs_call' (Q := fun d =>
      Stands t (D.workspacesDir ++ [first]) d.fs) ?_) fun _ d hd => Prog.does_look_bind ?_)
    · refine Prog.meets_perform (fun d => Stands t (D.restoreDir ++ [workspacesName, first]) d.fs) (hr.2 e rfl) ?_
      intro c w c' o hc hstep
      obtain ⟨hkeeps, hstands⟩ := stable_stands (D := D) (m := m) Op.noConfusion (fun _ _ => id) (fun _ _ => id) c w c' o
        hc hstep
      refine ⟨hkeeps, fun _ => hstands, ?_⟩
      rintro r rfl words rfl r k hk
      obtain ⟨rfl, hcarried⟩ := device_copyTree hstep
      refine stands_of_carried (hcarried words rfl) r k ?_
      rw [kind_subtree]
      exact hc r k hk
    · have hsrc : ∀ q, D.workspacesDir ++ [first] <+: q → ¬ D.restoreDir ++ [workspacesName, first] <+: q :=
        fun q hq => hapart.symm.not_both hq
      have hunder : ∀ q, Under (workspaceDir m) q → ¬ D.restoreDir ++ [workspacesName, first] <+: q :=
        fun q hq => hsrc q (hdir.trans hq.1)
      refine Prog.does_of_only ?_ hd
      split
      · exact only_call' (stable_stands Op.noConfusion hunder hsrc)
      · exact only_call' (stable_stands Op.noConfusion hunder hsrc)

section
variable {first : Text} (hA : D.Apart) (hdir : D.workspacesDir ++ [first] <+: workspaceDir m)
include hA hdir

omit hA in
/-- A path apart from the workspaces directory is apart from the checkout, and from where it is placed. -/
theorem apart_outside {x : Path} (h : Apart D.workspacesDir x) :
    Apart x (workspaceDir m) ∧ Apart x (D.workspacesDir ++ [first]) :=
  ⟨(h.under ((List.prefix_append ..).trans hdir)).symm, (h.under (List.prefix_append ..)).symm⟩

theorem apart_restore (rest : List Text) :
    Apart (D.restoreDir ++ rest) (workspaceDir m) ∧ Apart (D.restoreDir ++ rest) (D.workspacesDir ++ [first]) :=
  apart_outside hdir (hA.restore.under_right (List.prefix_append ..))

/-- The move of any other entry spares the directory, and spares the one that carries the checkout. -/
theorem only_moveWorkspace {name : Text} (hname : name ≠ first)
    (hp : p = D.restoreDir ++ [workspacesName, first] ∨ p = D.workspacesDir ++ [first]) :
    Prog.Only (Spares (workspaceDir m) p) (moveWorkspace D name) := by
  have hsrc := apart_restore hA hdir [workspacesName, name]
  have hplace : Apart (D.workspacesDir ++ [name]) (D.workspacesDir ++ [first]) := apart_siblings hname
  refine Prog.only_bind Prog.only_look fun kind => ?_
  split
  · exact Prog.only_pure
  · rcases hp with rfl | rfl
    · have hsiblings : Apart (D.restoreDir ++ [workspacesName] ++ [name]) (D.restoreDir ++ [workspacesName] ++ [first]) :=
        apart_siblings hname
      rw [List.append_assoc, List.append_assoc] at hsiblings
      have hother : Apart (D.workspacesDir ++ [name]) (D.restoreDir ++ [workspacesName, first]) :=
        (hA.restore.under (List.prefix_append ..)).under_right (List.prefix_append ..)
      exact only_movePath hsrc.1 hsiblings (hplace.under_right hdir) hother
    · exact only_movePath hsrc.1 hsrc.2 (hplace.under_right hdir) hplace

/-- After the loop over the archive's entries the checkout is placed. -/
theorem runs_moveWorkspaces {archive : Tree} (hws : kind archive [workspacesName] = some .dir)
    (hfirst : kind archive [workspacesName, first] = some .dir) (hd : Vacant (workspaceDir m) d)
    (hs : Stands archive D.restoreDir d.fs) : Runs D W m (moveWorkspaces D)
      (fun _ d => Stands (subtree [workspacesName, first] archive) (D.workspacesDir ++ [first]) d.fs) d := by
  have hwsDir : isDir d.fs D.restoreDir [workspacesName] = true :=
    isDir_of_kind (by decide) (hs _ _ hws)
  refine Prog.does_look_bind ?_
  rw [if_pos hwsDir]
  have hparent : ∀ q, Under (workspaceDir m) q → ¬ q <+: D.workspacesDir := by
    intro q hq hpre
    have hlen := ((hdir.trans hq.1).trans hpre).length_le
    rw [List.length_append, List.length_singleton] at hlen
    omega
  refine Prog.does_bind (Prog.does_mono (Prog.does_of_only (J := fun d => Vacant (workspaceDir m) d ∧
    Stands archive D.restoreDir d.fs) (only_call' (stable_vacant Op.noConfusion hparent fun _ _ => id)) ⟨hd, hs⟩)
    fun _ d hd => ?_)
  refine Prog.does_bind (Prog.does_mono (runs_call (Q := fun names d => first ∈ names ∧ names.Nodup ∧
    Vacant (workspaceDir m) d ∧ Stands archive D.restoreDir d.fs) ?_) fun names d hd => ?_)
  · refine Prog.meets_perform (fun d => Vacant (workspaceDir m) d ∧ Stands archive D.restoreDir d.fs) hd ?_
    rintro c w c' o ⟨hvacant, hstands⟩ hstep
    refine ⟨protects_of_vacant Op.noConfusion hvacant, ?_⟩
    cases o with
    | none =>
      have hreads := stable_vacant (D := D) (W := W) (m := m) (i := .readDir (D.restoreDir ++ [workspacesName]))
        Op.noConfusion (fun _ _ => id) (fun _ _ => id) c w c' none ⟨hvacant, hstands⟩ hstep
      exact ⟨fun _ => hreads.2, nofun⟩
    | some r =>
      obtain ⟨rfl, hnames⟩ := device_readDir hstep
      refine ⟨nofun, ?_⟩
      rintro _ ⟨⟩ names rfl
      rw [hnames names rfl]
      refine ⟨mem_children (k := .dir) ?_, nodup_children, hvacant, hstands⟩
      rw [List.append_assoc]
      exact hstands _ _ hfirst
  · obtain ⟨hmem, hnodup, hvacant, hstands⟩ := hd
    have hsrc : Stands (subtree [workspacesName, first] archive) (D.restoreDir ++ [workspacesName, first]) d.fs := by
      intro r k hk
      rw [kind_subtree] at hk
      rw [List.append_assoc]
      exact hstands _ _ hk
    have hroot : kind (subtree [workspacesName, first] archive) [] = some .dir := by
      rw [kind_subtree, List.append_nil]
      exact hfirst
    -- until its turn the entry stands in the archive's tree; afterwards it stands in its place
    refine Prog.does_mono (Prog.does_forM (fun names d => (first ∈ names ∧ names.Nodup ∧ Vacant (workspaceDir m) d ∧
      Stands (subtree [workspacesName, first] archive) (D.restoreDir ++ [workspacesName, first]) d.fs) ∨
      first ∉ names ∧ Stands (subtree [workspacesName, first] archive) (D.workspacesDir ++ [first]) d.fs) ?_
      (.inl ⟨hmem, hnodup, hvacant, hsrc⟩)) ?_
    · rintro name names d (⟨hmem, hnodup, hvacant, hstands⟩ | ⟨hmem, hstands⟩)
      · by_cases hname : name = first
        · subst hname
          have hkind := hstands [] .dir hroot
          rw [List.append_nil] at hkind
          refine Prog.does_look_bind ?_
          rw [hkind]
          refine Prog.does_mono (runs_place hA hdir hvacant hstands) fun _ d hd => .inr ⟨?_, hd⟩
          exact (List.nodup_cons.1 hnodup).1
        · have honly := only_moveWorkspace hA hdir hname (.inl rfl)
          refine Prog.does_mono (Prog.does_of_only (Prog.All.mono (fun _ hi => Spares.vacant hi) honly)
            ⟨hvacant, hstands⟩) fun _ d hd => .inl ⟨?_, (List.nodup_cons.1 hnodup).2, hd⟩
          exact (List.mem_cons.1 hmem).resolve_left fun h => hname h.symm
      · obtain ⟨hname, hmem⟩ := not_or.1 (fun h => hmem (List.mem_cons.2 h))
        have honly := only_moveWorkspace hA hdir (Ne.symm hname) (.inr rfl)
        exact Prog.does_mono (Prog.does_of_only (Prog.All.mono (fun _ hi => Spares.stands hi) honly) hstands)
          fun _ d hd => .inr ⟨hmem, hd⟩
    · rintro _ d (⟨hmem, -⟩ | ⟨-, hd⟩)
      · cases hmem
      · exact hd

theorem only_moveIfPresent {rest : List Text} {dst : Path} (hdst : Apart D.workspacesDir dst) :
    Prog.Only (Spares (workspaceDir m) (D.workspacesDir ++ [first])) (moveIfPresent D rest dst) := by
  have hsrc := apart_restore hA hdir rest
  have hdst := apart_outside hdir hdst
  refine Prog.only_bind Prog.only_look fun present => ?_
  cases present
  · exact Prog.only_pure
  · exact only_movePath hsrc.1 hsrc.2 hdst.1 hdst.2

theorem runs_applyRestoreLayout {archive : Tree} (hws : kind archive [workspacesName] = some .dir)
    (hfirst : kind archive [workspacesName, first] = some .dir) (hd : Vacant (workspaceDir m) d)
    (hs : Stands archive D.restoreDir d.fs) : Runs D W m (applyRestoreLayout D)
      (fun _ d => Stands (subtree [workspacesName, first] archive) (D.workspacesDir ++ [first]) d.fs) d := by
  have hrefuse : ∀ P : Op → Prop, Prog.Only P (layoutPaths.forM fun path => refuseSymlink (D.restoreDir ++ path)) := by
    refine fun P => Prog.only_forM fun path _ => Prog.only_bind Prog.only_look fun kind => ?_
    split
    · exact Prog.only_throw
    · exact Prog.only_pure
  have hhome : ∀ {rest dst d}, Apart D.workspacesDir dst →
      Stands (subtree [workspacesName, first] archive) (D.workspacesDir ++ [first]) d.fs →
      Runs D W m (moveIfPresent D rest dst)
        (fun _ d => Stands (subtree [workspacesName, first] archive) (D.workspacesDir ++ [first]) d.fs) d :=
    fun hdst hd => Prog.does_of_only (Prog.All.mono (fun _ hi => Spares.stands hi) (only_moveIfPresent hA hdir hdst)) hd
  refine Prog.does_bind (Prog.does_mono (Prog.does_of_only (J := fun d => Vacant (workspaceDir m) d ∧
    Stands archive D.restoreDir d.fs) (hrefuse _) ⟨hd, hs⟩) fun _ d hd => ?_)
  refine Prog.does_bind (Prog.does_mono (runs_moveWorkspaces hA hdir hws hfirst hd.1 hd.2) fun _ d hd => ?_)
  refine Prog.does_bind (Prog.does_mono (hhome hA.data hd) fun _ d hd => ?_)
  exact Prog.does_bind (Prog.does_mono (hhome hA.kernels hd) fun _ d hd => hhome hA.settings hd)

theorem runs_downloadAndExtract {spec : RestoreSpec} (hd : Vacant (workspaceDir m) d) :
    Runs D W m (downloadAndExtract spec D.restoreDir)
      (fun _ d => Vacant (workspaceDir m) d ∧ Stands (W.archive spec) D.restoreDir d.fs) d := by
  have hrestore := apart_restore hA hdir []
  rw [List.append_nil] at hrestore
  have hspares : Spares (workspaceDir m) (workspaceDir m) (.extract spec D.restoreDir) :=
    spares_extract hrestore.1 hrestore.1
  refine Prog.does_bind (Prog.does_mono (runs_call (Q := fun _ d => Vacant (workspaceDir m) d ∧
    Stands (W.archive spec) D.restoreDir d.fs) ?_) fun _ d hd => Prog.does_mk fun _ _ => hd)
  refine Prog.meets_perform (Vacant (workspaceDir m)) hd fun c w c' o hc hstep => ?_
  obtain ⟨hkeeps, hvacant⟩ := stable_empty (D := D) hspares.unmarked hspares.creates c w c' o hc hstep
  refine ⟨hkeeps, fun _ => hvacant, ?_⟩
  rintro r rfl words rfl
  exact ⟨hvacant, device_extract hstep⟩

theorem runs_restoreTarball {spec : RestoreSpec} (hws : kind (W.archive spec) [workspacesName] = some .dir)
    (hfirst : kind (W.archive spec) [workspacesName, first] = some .dir) (hd : Vacant (workspaceDir m) d) :
    Runs D W m (restoreTarball D spec)
      (fun _ d => Stands (subtree [workspacesName, first] (W.archive spec)) (D.workspacesDir ++ [first]) d.fs) d := by
  have hrestore := apart_restore hA hdir []
  rw [List.append_nil] at hrestore
  have hremove := Prog.only_attempt (only_removeTree (spares_removeDirAll hrestore.1 hrestore.1))
  have hcreate := spares_createDirAll (p := workspaceDir m) hrestore.1.2
  refine Prog.does_bind (Prog.does_mono (runs_vacant hremove hd) fun _ d hd => ?_)
  refine Prog.does_bind (Prog.does_mono (runs_vacant (only_call' hcreate) hd) fun _ d hd => ?_)
  refine Prog.does_bind (Prog.does_mono (Prog.does_capture (runs_downloadAndExtract hA hdir hd)) fun r d hr => ?_)
  cases r with
  | error e => exact Prog.does_bind (Prog.does_mono (runs_anywhere hremove) fun _ _ _ => Prog.does_throw)
  | ok u =>
    obtain ⟨hd, hs⟩ := hr u rfl
    have hlayout := runs_applyRestoreLayout (W := W) hA hdir hws hfirst hd hs
    refine Prog.does_bind (Prog.does_mono (Prog.does_capture hlayout) fun layout d hd => ?_)
    cases layout with
    | error e => exact Prog.does_bind (Prog.does_mono (runs_anywhere hremove) fun _ _ _ => Prog.does_mk nofun)
    | ok u =>
      have hremove := Prog.only_attempt (only_removeTree (spares_removeDirAll hrestore.1 hrestore.2))
      have hstands := hd u rfl
      exact Prog.does_bind (Prog.does_mono (Prog.does_of_only (Prog.All.mono (fun _ hi => Spares.stands hi) hremove)
        hstands) fun _ d hd => Prog.does_mk fun _ _ => hd)

end

/-! ## The boot -/

/-- A directory inside the workspaces directory, by the names below it. -/
theorem exists_relDir (h : Under D.workspacesDir (workspaceDir m)) :
    ∃ first rest, relDir D m = first :: rest ∧ workspaceDir m = D.workspacesDir ++ first :: rest := by
  obtain ⟨⟨rel, hrel⟩, hne⟩ := h
  cases rel with
  | nil =>
    rw [List.append_nil] at hrel
    exact absurd hrel.symm hne
  | cons first rest =>
    refine ⟨first, rest, ?_, hrel.symm⟩
    rw [relDir, ← hrel, List.drop_left]

theorem runs_materializeFromRestore {spec : RestoreSpec} (hA : D.Apart)
    (hin : Under D.workspacesDir (workspaceDir m)) (hrestore : m.restore = some spec)
    (hcarries : Carries (W.archive spec) (workspacesName :: relDir D m)) (hd : Vacant (workspaceDir m) d) :
    Runs D W m (materializeFromRestore D spec) (fun _ _ => True) d := by
  obtain ⟨first, rest, hrel, hdir⟩ := exists_relDir hin
  have hpre : D.workspacesDir ++ [first] <+: workspaceDir m := by
    rw [hdir, List.prefix_append_right_inj]
    exact ⟨rest, rfl⟩
  have hws := hcarries [workspacesName] (by simp) ⟨relDir D m, rfl⟩
  have hfirst := hcarries [workspacesName, first] (by simp) ⟨rest, by rw [hrel]; rfl⟩
  have hwhole := hcarries (workspacesName :: relDir D m) (by simp) List.prefix_rfl
  refine Prog.does_bind (Prog.does_mono (runs_restoreTarball hA hpre hws hfirst hd) fun _ d hd => ?_)
  refine runs_setCloneDone ?_
  -- what stands in the entry's place stands at the directory below it
  have hstands : Stands (subtree (workspacesName :: relDir D m) (W.archive spec)) (workspaceDir m) d.fs := by
    intro r k hk
    rw [kind_subtree, hrel] at hk
    have hplaced := hd (rest ++ r) k (by rw [kind_subtree]; exact hk)
    rw [hdir]
    rw [List.append_assoc] at hplaced
    rw [List.append_assoc]
    exact hplaced
  rw [Complete, hrestore]
  refine ⟨?_, hstands⟩
  have hroot := hstands [] .dir (by rw [kind_subtree, List.append_nil]; exact hwhole)
  rw [List.append_nil] at hroot
  exact hroot

/-- A boot from a settled disk protects the user's files at every step. -/
theorem materializeRepo_meets (hin : Under D.workspacesDir (workspaceDir m)) (hd : Settled D W m d) :
    Prog.Meets (device W) (Protects D W m) (materializeRepo D m).run (fun _ _ => True) d := by
  have hdir : workspaceDir m ≠ [] := by
    obtain ⟨first, rest, -, hdir⟩ := exists_relDir hin
    rw [hdir]
    simp
  have hruns : Runs D W m (materializeRepo D m) (fun _ _ => True) d := by
    refine Prog.does_look_bind ?_
    split
    · exact Prog.does_pure trivial
    · rename_i habsent
      obtain ⟨hA, hd, hcarries⟩ := hd.resolve_left habsent
      have hs := staging_apart hdir
      have hrestore : Apart D.restoreDir (workspaceDir m) := (hA.restore.under hin.1).symm
      have htruncated : Prog.Only (Prog.Stable (device W) (Protects D W m) (Vacant (workspaceDir m)))
          (removeTruncated D m) := by
        refine Prog.only_bind Prog.only_look fun present => ?_
        cases present
        · exact Prog.only_pure
        · exact only_removeTree (stable_empty Op.noConfusion fun _ _ => id)
      refine Prog.does_bind (Prog.does_mono (Prog.does_of_only htruncated hd) fun _ d hd => ?_)
      refine Prog.does_bind (Prog.does_mono (runs_vacant (Prog.only_attempt (only_removeTree
        (spares_removeDirAll hs hs))) hd) fun _ d hd => ?_)
      refine Prog.does_bind (Prog.does_mono (runs_vacant (Prog.only_attempt (only_removeTree
        (spares_removeDirAll hrestore hrestore))) hd) fun _ d hd => ?_)
      cases hspec : m.restore with
      | none => exact runs_materializeFromClone hdir hspec hd
      | some spec => exact runs_materializeFromRestore hA hin hspec (hcarries spec hspec) hd
  exact Prog.meets_mono (fun _ _ _ => trivial) hruns

/-- In every run of boots, crashes and edits whose boots all start from a settled disk, no step of a boot takes or
changes anything under the workspace directory once `clone.done` stands, and `clone.done` is written only where a
complete checkout is in place. -/
theorem setup_protects {s s' : Host Manifest Op Disk Reply (Except Failure Unit)}
    {c : Reply → Prog Op Disk Reply (Except Failure Unit)}
    (h : (system D W).Reach (Host.Started (Settled D W)) s) (hr : s.running = some (m, .act i c))
    (hs : (system D W).step s (.op w) = some s') : Protects D W m i s.disk s'.disk := by
  refine Host.guaranteed (S := boots D W) (fun m d hm hd => ?_) h hr hs
  exact materializeRepo_meets (of_decide_eq_true hm) hd

/-! ## A checkout whose `.git` is a file -/

/-- The directories of a sandbox. -/
def sandboxDirs : Dirs where
  workspacesDir := words ["workspaces"]
  dataDir := words ["vercel", ".local", "share", "zed"]
  home := words ["vercel"]
  stateDir := words ["vercel", ".zs"]

/-- A checkout is what has a `.git` directory; no archive. -/
def gitWorld : World where
  archive _ := []
  checkedOut _ t := kind t (words [".git"]) = some .dir

/-- The manifest of a clone into `/workspaces/app`. -/
def appManifest : Manifest where
  version := 1
  workspaceId := []
  sandboxName := []
  userId := []
  build := []
  clientBuild := none
  region := []
  repo := ⟨[], [], [], [], "main".toList, 0, none⟩
  workspaceDir := "/workspaces/app".toList
  restore := none
  dotfiles := none
  env := []
  secretNames := []
  jwt := ⟨[], [], []⟩
  portSessionSecret := none
  forwards := []
  idleMinutes := 30
  session := ⟨[], 0, 1, false⟩
  settings := none
  logs := ⟨5, 100, 65536⟩
  activityIntervalSecs := 30
  allowedOrigins := []
  extensions := []

def appDir : Path := words ["workspaces", "app"]

def notes : Path := appDir ++ words ["notes"]

theorem sandboxDirs_apart : sandboxDirs.Apart := ⟨by decide, by decide, by decide, by decide⟩

/-- The first call of the first boot. -/
theorem first_removal_protects : Protects sandboxDirs gitWorld appManifest (.removeDirAll (partialDir appDir))
    ⟨[], false⟩ ⟨[], false⟩ := by
  have hinit : (system sandboxDirs gitWorld).init ⟨⟨[], false⟩, none⟩ := ⟨rfl, rfl⟩
  have hsettled : Host.Started (ω := Outcome) (η := Edit) (Settled sandboxDirs gitWorld)
      ⟨⟨[], false⟩, (none : Option (Manifest × Prog Op Disk Reply (Except Failure Unit)))⟩ (.boot appManifest) := by
    rintro _ ⟨⟩
    exact .inr ⟨sandboxDirs_apart, nofun, nofun⟩
  have hboot := (System.Reach.init hinit).step hsettled rfl
  have hfirst := hboot.step (e := .read) (by rintro _ ⟨⟩) rfl
  have hread := hfirst.step (e := .read) (by rintro _ ⟨⟩) rfl
  exact setup_protects (w := .done) hread rfl rfl

/-- The first boot clones; then the user writes notes, and has `.git` be a file that names a directory elsewhere. -/
def cloneThenEdit : List (Host.Event Manifest Outcome Edit) :=
  [.boot appManifest, .read, .read, .op .done, .op .done, .op .done, .op .done, .op (.exit [([], .dir)] []),
    .op (.exit [([], .dir)] []), .op (.exit [([], .dir)] []), .op (.exit [([], .dir), (words [".git"], .dir)] []), .op .done, .op .done,
    .edit ⟨appDir, [([], .dir), (words [".git"], .file "gitdir: ../app.git".toList), (words ["notes"], .file [])]⟩,
    .boot appManifest, .read, .read]

/-- The next step of the boot takes the notes away, with the marker in place. -/
def losesNotes (s : Host Manifest Op Disk Reply (Except Failure Unit)) : Bool :=
  match s.running, (system sandboxDirs gitWorld).step s (.op (.unlink notes)) with
  | some (m, .act _ _), some s' => s.disk.cloneDone && decide (Under (workspaceDir m) notes) &&
      decide (kind s.disk.fs notes = some (.file [])) && decide (kind s'.disk.fs notes = none)
  | _, _ => false

theorem not_setup_always_protects : ¬ ∀ (D : Dirs) (W : World) (s s' : Host Manifest Op Disk Reply (Except Failure Unit))
    (m : Manifest) (i : Op) (w : Outcome) (c : Reply → Prog Op Disk Reply (Except Failure Unit)),
    (system D W).Reach System.free s → s.running = some (m, .act i c) → (system D W).step s (.op w) = some s' →
      Protects D W m i s.disk s'.disk := by
  intro h
  have hinit : (system sandboxDirs gitWorld).init ⟨⟨[], false⟩, none⟩ := ⟨rfl, rfl⟩
  obtain ⟨s, hreach, hloses⟩ := System.exists_reach_of_exec (fun s => losesNotes s = true) cloneThenEdit hinit
    (by decide)
  rw [losesNotes] at hloses
  split at hloses
  · rename_i m i c s' hr hs
    simp only [Bool.and_eq_true, decide_eq_true_eq] at hloses
    obtain ⟨⟨⟨hdone, hunder⟩, hbefore⟩, hafter⟩ := hloses
    have hkeeps := (h sandboxDirs gitWorld s s' m i _ c hreach hr hs).1 hdone notes _ hunder hbefore
    cases hafter.symm.trans hkeeps
  · cases hloses

end Zedspaces.Supervisor.Bootstrap
