/-
Rebuilds and editor sessions. A rebuild deletes two kinds of generations: the old one, which it has
archived, and, when it resumes from the pointers a failed rebuild left, the current one. The second may
hold newer edits: a parent that has lost sight of its create child fails, the child completes and leaves
the row `running` with the pointers still set, an editor reconnects, and the next rebuild deletes what the
user works in (`rebuild_deletes_newer_edits`).

The history counts the editor sessions opened in a sandbox and those its latest archive came after; a
sandbox is covered when the counts agree. Every pointer to a previous generation names a covered one, an
archive covers the sandbox it was made of, and both stay so while no session is opened in a generation that
is previous or that a rebuild has chosen.
-/
import Zedspaces.Lifecycle.Children

namespace Zedspaces.Lifecycle

open Lib Lib.System

variable {cfg : Config} {w : World} {stmt : Stmt} {id : WsId} {name : SandboxName}

/-! ## Covered sandboxes -/

/-- Every editor session opened in the sandbox since it was healthy came before its latest archive. -/
def World.Covered (w : World) (name : SandboxName) : Prop := w.hist.opened name ≤ w.hist.archived name

instance (w : World) (name : SandboxName) : Decidable (w.Covered name) := inferInstanceAs (Decidable (_ ≤ _))

/-- The tarball in the sandbox, if there is one, was started after every editor session opened in it. -/
def World.TarCovers (w : World) (name : SandboxName) : Prop :=
  ∀ sb, w.sandboxes name = some sb → sb.archiveTmp.isSome = true → w.hist.opened name ≤ sb.archiveCovers

/-- Previous generations are covered, and tarballs are counted in the order they are made. -/
structure World.Archives (w : World) : Prop where
  named : ∀ id row, w.rows id = some row → row.sandboxName.workspace = id
  previous : ∀ id row p, w.rows id = some row → row.previousSandboxName = some p → p.workspace = id ∧ w.Covered p
  archived : ∀ name, w.hist.archived name ≤ w.hist.opened name
  tarball : ∀ name sb, w.sandboxes name = some sb → sb.archiveTmp.isSome = true →
    w.hist.archived name ≤ sb.archiveCovers ∧ sb.archiveCovers ≤ w.hist.opened name

/-! ## The generations a rebuild has chosen -/

/-- The generations whose deletion a rebuild has decided on: after the pointers a failed rebuild left, or
from the start of the archive on. -/
def RebuildPc.chosen : RebuildPc → List SandboxName
  | .currentRelease ws => match ws.previousSandboxName with
    | some previous => [ws.sandboxName, previous]
    | none => []
  | .setRetry ws _ previous _ | .deleteCurrent ws _ previous _ => [ws.sandboxName, previous]
  | .setRelease _ previous _ | .create previous _ _ | .deletePrevious previous _ => [previous]
  | .waitArchive ws _ _ | .finishArchive ws _ | .stopDiscard ws _ _ | .recordEnd ws _ _ | .bumpRead ws _ _ =>
    [ws.sandboxName]
  | .bumpWrite _ read _ _ => [read.sandboxName]
  | _ => []

/-- The archive is under way. -/
def RebuildPc.archiving : RebuildPc → Bool
  | .waitArchive _ _ _ | .finishArchive _ _ => true
  | _ => false

/-- The generation the next step of a rebuild deletes. -/
def RebuildPc.discards : RebuildPc → Option SandboxName
  | .deleteCurrent ws _ _ _ => some ws.sandboxName
  | .deletePrevious previous _ => some previous
  | _ => none

def Proc.rebuildPc : Proc → Option RebuildPc
  | .run ⟨_, _, _, .body (.rebuild pc)⟩ => some pc
  | _ => none

def Proc.chosen (p : Proc) : List SandboxName := (p.rebuildPc.map (·.chosen)).getD []

/-- The generation the process `n` deletes with its next step, when it is a rebuild. -/
def Sys.aboutToDiscard (s : Sys) (n : Pid) : Option SandboxName :=
  ((s.procs n).bind (·.rebuildPc)).bind (·.discards)

/-- An editor session may be opened in the sandbox: it is not the previous generation of its workspace, and
no rebuild has chosen it. -/
def Sys.MayOpen (s : Sys) (id : WsId) (name : SandboxName) : Prop :=
  (∀ row ∈ s.world.rows id, row.previousSandboxName ≠ some name) ∧ ∀ k q, s.procs k = some q → name ∉ q.chosen

instance (s : Sys) (id : WsId) (name : SandboxName) : Decidable (s.MayOpen id name) :=
  inferInstanceAs (Decidable (_ ∧ ∀ k q, s.procs k = some q → name ∉ q.chosen))

/-- A rebuild resumes from the pointers of a failed one only when the current generation is covered, and
bumps away from a generation it has not archived only when that one is. -/
def RebuildPc.Spares (id : WsId) (w : World) : RebuildPc → Prop
  | .load => ∀ row ∈ w.liveRow id, row.previousSandboxName.isSome = true → w.Covered row.sandboxName
  | .bumpRead ws _ _ => ∀ row ∈ w.rows id, row.sandboxName ≠ ws.sandboxName → w.Covered row.sandboxName
  | _ => True

instance (id : WsId) (w : World) (pc : RebuildPc) : Decidable (pc.Spares id w) := by
  unfold RebuildPc.Spares; split <;> infer_instance

/-- The step leaves newer edits alone: a rebuild spares them, and no editor session is opened in a healthy
sandbox that is previous or chosen. -/
def SparesEdits (s : Sys) (e : SysEvent) : Prop := match s.acting e with
  | some (.run ⟨id, _, _, .body (.rebuild pc)⟩) => pc.Spares id s.world
  | some (.request ⟨input, .openSession ws _⟩) =>
    s.world.hist.everHealthy (newSandboxName input.ws ws.sandboxGeneration) = true →
      s.MayOpen input.ws (newSandboxName input.ws ws.sandboxGeneration)
  | _ => True

instance (s : Sys) (e : SysEvent) : Decidable (SparesEdits s e) := by
  unfold SparesEdits
  generalize s.acting e = p
  rcases p with _ | ⟨_, _, _, (_ | _ | _ | _ | _ | _) | _ | _⟩ | _ | ⟨_, _ | _⟩ | _ <;> infer_instance

/-- What a statement may rely on: a bump leaves a covered generation, an archive is stored of a tarball
there is, and a session is opened where one may be. -/
structure SoundFor (s : Sys) (stmt : Stmt) : Prop where
  regular : stmt.Regular
  bump : ∀ id read blob release, stmt = .bumpGeneration id read blob release →
    read.sandboxName.workspace = id ∧ s.world.Covered read.sandboxName
  archive : ∀ name, stmt = .finishArchive name → (s.world.archiveTmp name).isSome = true
  opening : ∀ id read input, stmt = .openSession id read input →
    s.world.hist.everHealthy (newSandboxName id read.sandboxGeneration) = true →
      s.MayOpen id (newSandboxName id read.sandboxGeneration)

/-! ## What a statement does to sandboxes and counts -/

/-- The two have the same tarball. -/
def Sandbox.SameTar (sb sb' : Sandbox) : Prop := sb'.archiveTmp = sb.archiveTmp ∧ sb'.archiveCovers = sb.archiveCovers

theorem Sandbox.sameTar_endSession (st : EndedStatus) (sb : Sandbox) : sb.SameTar (sb.endSession st) := by
  unfold endSession
  split <;> exact ⟨rfl, rfl⟩

theorem Sandbox.sameTar_resume (cfg : Config) (now : Int) (vm : VmSession) (sb : Sandbox) :
    sb.SameTar (if sb.resumes then sb.startSession cfg now vm else sb) := by
  split <;> exact ⟨rfl, rfl⟩

/-- Only the start of an archive makes a tarball. -/
theorem Stmt.onSandbox_tar {sb sb' : Sandbox} (hsb : w.sandboxes name = some sb)
    (h : stmt.onSandbox cfg w name (some sb) = some sb') :
    sb.SameTar sb' ∨ (stmt = .startArchive name ∧ sb'.archiveCovers = w.hist.opened name) := by
  cases stmt with
  | startArchive other =>
    simp only [onSandbox, Option.map_some] at h
    split at h
    · next hname =>
      cases h
      exact .inr ⟨hname ▸ rfl, rfl⟩
    · cases h
      exact .inl ⟨rfl, rfl⟩
  | boot other checkout =>
    simp only [onSandbox] at h
    split at h
    · rcases Option.or_eq_some_iff.1 h with hb | ⟨-, hb⟩
      · obtain ⟨row, sb₀, hboots⟩ := World.boots_of_booted hb
        cases hsb.symm.trans hboots.sandbox
        rw [hboots.eq]
        exact .inl ⟨rfl, rfl⟩
      · cases hb
        exact .inl ⟨rfl, rfl⟩
    · cases h
      exact .inl ⟨rfl, rfl⟩
  | getOrCreate other =>
    simp only [onSandbox, Option.all_some, Option.getD_some] at h
    split at h <;> cases h
    · exact .inl (sb.sameTar_resume cfg _ _)
    · exact .inl ⟨rfl, rfl⟩
  | resume other | finishArchive other =>
    simp only [onSandbox, Option.map_some] at h
    split at h <;> cases h
    · exact .inl (sb.sameTar_resume cfg _ _)
    · exact .inl ⟨rfl, rfl⟩
  | stopSandbox other | endSession other status =>
    simp only [onSandbox, Option.map_some] at h
    split at h <;> cases h
    · exact .inl (sb.sameTar_endSession _)
    · exact .inl ⟨rfl, rfl⟩
  | deleteSandbox other how =>
    cases how with
    | deleted =>
      simp only [onSandbox] at h
      split at h <;> cases h
      exact .inl ⟨rfl, rfl⟩
    | onlyStopped =>
      simp only [onSandbox, Option.map_some] at h
      split at h <;> cases h
      · exact .inl (sb.sameTar_endSession _)
      · exact .inl ⟨rfl, rfl⟩
    | nothing =>
      cases h
      exact .inl ⟨rfl, rfl⟩
  | edit other files =>
    simp only [onSandbox, Option.map_some] at h
    repeat' split at h
    all_goals
      cases h
      exact .inl ⟨rfl, rfl⟩
  | startSupervisor j other cmd =>
    simp only [onSandbox, Option.map_some] at h
    split at h <;> cases h <;> exact .inl ⟨rfl, rfl⟩
  | _ =>
    cases h
    exact .inl ⟨rfl, rfl⟩

/-- A tarball in a sandbox was there before, or the statement has just started it. -/
theorem Stmt.exec_tarball {sb' : Sandbox} (h : (stmt.exec cfg w).sandboxes name = some sb')
    (ht : sb'.archiveTmp.isSome = true) :
    (∃ sb, w.sandboxes name = some sb ∧ sb.SameTar sb') ∨
      (stmt = .startArchive name ∧ sb'.archiveCovers = w.hist.opened name) := by
  cases hsb : w.sandboxes name with
  | none =>
    rcases Stmt.exec_sandboxes cfg (by rw [h]; exact Option.some_ne_none sb') with hsome | rfl
    · exact absurd hsb hsome
    · rw [Stmt.exec_onSandbox, hsb] at h
      simp only [onSandbox, Option.all_none, Option.getD_none, ↓reduceIte, Option.some.injEq] at h
      subst h
      cases ht
  | some sb =>
    rw [Stmt.exec_onSandbox, hsb] at h
    rcases Stmt.onSandbox_tar hsb h with hsame | hstart
    · exact .inl ⟨sb, rfl, hsame⟩
    · exact .inr hstart

/-- Only an editor session that is opened counts. -/
theorem Stmt.exec_opened (cfg : Config) (stmt : Stmt) (w : World) (name : SandboxName) :
    (stmt.exec cfg w).hist.opened name = w.hist.opened name ∨
      ∃ id read input, stmt = .openSession id read input ∧ name = newSandboxName id read.sandboxGeneration ∧
        w.hist.everHealthy name = true ∧ (stmt.exec cfg w).hist.opened name = w.hist.opened name + 1 := by
  cases stmt with
  | openSession id read input =>
    by_cases hh : w.hist.everHealthy (newSandboxName id read.sandboxGeneration) = true
    · by_cases hname : name = newSandboxName id read.sandboxGeneration
      · subst hname
        exact .inr ⟨id, read, input, rfl, rfl, hh, by simp [exec, arbitrateSession, hh]⟩
      · left
        simp [exec, arbitrateSession, hh, hname]
    · left
      simp [exec, arbitrateSession, hh]
  | deleteSandbox other how => cases how <;> exact .inl rfl
  | _ => exact .inl rfl

/-- A stored archive covers what the tarball in the sandbox covers. -/
theorem Stmt.finishArchive_archived {sb : Sandbox} (hsb : w.sandboxes name = some sb) :
    ((finishArchive name).exec cfg w).hist.archived name = sb.archiveCovers := by
  simp only [exec, stepFinishArchive, World.resume, Function.update_self, hsb]
  exact (sb.sameTar_resume cfg _ _).2

theorem Stmt.exec_archived (cfg : Config) (stmt : Stmt) (w : World) (name : SandboxName) :
    (stmt.exec cfg w).hist.archived name = w.hist.archived name ∨ stmt = .finishArchive name := by
  cases stmt with
  | finishArchive other =>
    by_cases hname : name = other
    · exact .inr (hname ▸ rfl)
    · left
      simp [exec, stepFinishArchive, World.resume, hname]
  | deleteSandbox other how => cases how <;> exact .inl rfl
  | _ => exact .inl rfl

/-! ## The world -/

section
variable {s : Sys}

theorem World.exists_of_archiveTmp (h : (w.archiveTmp name).isSome = true) :
    ∃ sb, w.sandboxes name = some sb ∧ sb.archiveTmp.isSome = true := by
  unfold World.archiveTmp at h
  cases hsb : w.sandboxes name with
  | none => simp [hsb] at h
  | some sb => exact ⟨sb, rfl, by simpa [hsb] using h⟩

/-- Archives are stored in the order their tarballs were made, so their counts do not go down. -/
theorem World.Archives.archived_le (cfg : Config) (hw : s.world.Archives) (h : SoundFor s stmt) (name : SandboxName) :
    s.world.hist.archived name ≤ (stmt.exec cfg s.world).hist.archived name := by
  rcases Stmt.exec_archived cfg stmt s.world name with he | rfl
  · exact he.ge
  · obtain ⟨sb, hsb, ht⟩ := World.exists_of_archiveTmp (h.archive name rfl)
    rw [Stmt.finishArchive_archived hsb]
    exact (hw.tarball name sb hsb ht).1

/-- What the names of a row after a sound statement are: kept, or those of a bump. -/
theorem SoundFor.onRow (cfg : Config) (id : WsId) (h : SoundFor s stmt) (row : Workspace) : row.Keeps (stmt.onRow cfg s.world id row) ∨
    ∃ read blob release, stmt = .bumpGeneration id read blob release ∧
      (stmt.onRow cfg s.world id row).sandboxName.workspace = id ∧
      (stmt.onRow cfg s.world id row).previousSandboxName = some read.sandboxName := by
  by_cases hb : ∀ j read blob release, stmt ≠ .bumpGeneration j read blob release
  · exact .inl (Stmt.onRow_keeps h.regular hb row)
  simp only [not_forall, not_not] at hb
  obtain ⟨j, read, blob, release, rfl⟩ := hb
  by_cases hj : j = id
  · subst hj
    refine .inr ⟨read, blob, release, rfl, ?_⟩
    simp only [Stmt.onRow, ↓reduceIte]
    exact ⟨rfl, rfl⟩
  · left
    simp only [Stmt.onRow, if_neg hj]
    exact .refl row

/-- The sessions that are opened in a sandbox which is previous or chosen do not count. -/
theorem SoundFor.opened_eq (h : SoundFor s stmt) (hp : (∃ row ∈ s.world.rows name.workspace,
    row.previousSandboxName = some name) ∨ ∃ k q, s.procs k = some q ∧ name ∈ q.chosen) :
    (stmt.exec cfg s.world).hist.opened name = s.world.hist.opened name := by
  rcases Stmt.exec_opened cfg stmt s.world name with he | ⟨id, read, input, rfl, rfl, hh, -⟩
  · exact he
  · obtain ⟨hprev, hchosen⟩ := h.opening id read input rfl hh
    rcases hp with ⟨row, hrow, hp⟩ | ⟨k, q, hq, hm⟩
    · exact absurd hp (hprev row hrow)
    · exact absurd hm (hchosen k q hq)

/-- A covered sandbox in which no session is opened stays covered. -/
theorem World.Covered.exec (hw : s.world.Archives) (h : SoundFor s stmt) (hc : s.world.Covered name)
    (hp : (∃ row ∈ s.world.rows name.workspace, row.previousSandboxName = some name) ∨
      ∃ k q, s.procs k = some q ∧ name ∈ q.chosen) : (stmt.exec cfg s.world).Covered name := by
  have harch := hw.archived_le cfg h name
  unfold World.Covered
  rw [h.opened_eq hp]
  exact Nat.le_trans hc harch

/-- So does a tarball. -/
theorem World.TarCovers.exec (h : SoundFor s stmt) (hc : s.world.TarCovers name)
    (hp : ∃ k q, s.procs k = some q ∧ name ∈ q.chosen) : (stmt.exec cfg s.world).TarCovers name := by
  intro sb' hsb' ht
  rw [h.opened_eq (.inr hp)]
  rcases Stmt.exec_tarball hsb' ht with ⟨sb, hsb, hsame⟩ | ⟨-, he⟩
  · rw [hsame.2]
    exact hc sb hsb (hsame.1 ▸ ht)
  · exact he.ge

theorem World.Archives.exec (hw : s.world.Archives) (h : SoundFor s stmt) : (stmt.exec cfg s.world).Archives := by
  have hopened : ∀ name, s.world.hist.opened name ≤ (stmt.exec cfg s.world).hist.opened name := by
    intro name
    rcases Stmt.exec_opened cfg stmt s.world name with he | ⟨_, _, _, -, -, -, he⟩
    · exact he.ge
    · omega
  refine ⟨fun id row' hrow' => ?_, fun id row' p hrow' hp => ?_, fun name => ?_, fun name sb' hsb' ht => ?_⟩
  · rcases Stmt.exec_rows_cases hrow' with ⟨row, hrow, rfl⟩ | ⟨release, idle, -, rfl⟩
    · rcases h.onRow cfg id row with hk | ⟨read, blob, release, -, hname, -⟩
      · rw [hk.name]
        exact hw.named id row hrow
      · exact hname
    · rfl
  · rcases Stmt.exec_rows_cases hrow' with ⟨row, hrow, rfl⟩ | ⟨release, idle, -, rfl⟩
    · rcases h.onRow cfg id row with hk | ⟨read, blob, release, rfl, -, hprev⟩
      · rcases hk.previous with he | he
        · obtain ⟨hid, hc⟩ := hw.previous id row p hrow (he ▸ hp)
          exact ⟨hid, hc.exec hw h (.inl ⟨row, by rw [hid]; exact hrow, he ▸ hp⟩)⟩
        · cases he.symm.trans hp
      · cases hprev.symm.trans hp
        exact h.bump id read blob release rfl
    · cases hp
  · rcases Stmt.exec_archived cfg stmt s.world name with he | rfl
    · rw [he]
      exact (hw.archived name).trans (hopened name)
    · obtain ⟨sb, hsb, ht⟩ := World.exists_of_archiveTmp (h.archive name rfl)
      rw [Stmt.finishArchive_archived hsb]
      exact (hw.tarball name sb hsb ht).2.trans (hopened name)
  · rcases Stmt.exec_tarball hsb' ht with ⟨sb, hsb, hsame⟩ | ⟨rfl, he⟩
    · have hold := hw.tarball name sb hsb (hsame.1 ▸ ht)
      rw [hsame.2]
      refine ⟨?_, hold.2.trans (hopened name)⟩
      rcases Stmt.exec_archived cfg stmt s.world name with he | rfl
      · exact he ▸ hold.1
      · exact (Stmt.finishArchive_archived hsb).le
    · rw [he]
      exact ⟨hw.archived name, le_refl _⟩

/-! ## Rebuilds -/

/-- What a rebuild on `id` relies on: the generations it has chosen are covered, by the tarball while the
archive is under way, and the row it has read for a bump is that of `id`. -/
structure RebuildPc.Relies (id : WsId) (w : World) (pc : RebuildPc) : Prop where
  chosen : ∀ name ∈ pc.chosen, if pc.archiving then w.TarCovers name else w.Covered name
  read : ∀ ws read release blob, pc = .bumpWrite ws read release blob → read.sandboxName.workspace = id

/-- A rebuild that chooses no more relies on no more. -/
theorem RebuildPc.Relies.mono {pc pc' : RebuildPc} (h : pc.Relies id w) (hsub : pc'.chosen ⊆ pc.chosen)
    (harch : pc'.archiving = pc.archiving) (hread : ∀ ws read release blob, pc' ≠ .bumpWrite ws read release blob) :
    pc'.Relies id w := by
  refine ⟨fun name hm => ?_, fun ws read release blob he => absurd he (hread ws read release blob)⟩
  rw [harch]
  exact h.chosen name (hsub hm)

theorem RebuildPc.Relies.of_nil {pc : RebuildPc} (h : pc.chosen = [])
    (hread : ∀ ws read release blob, pc ≠ .bumpWrite ws read release blob) : pc.Relies id w := by
  refine ⟨fun name hm => ?_, fun ws read release blob he => absurd he (hread ws read release blob)⟩
  rw [h] at hm
  cases hm

/-- A rebuild that has read its row relies on the pointers in it. -/
theorem RebuildPc.branch_relies {ws : Workspace} {release : EditorRelease} {upgrade : Option EditorRelease}
    {pc : RebuildPc} (h : branch ws release upgrade = .goto pc) (hr : (RebuildPc.currentRelease ws).Relies id w) :
    pc.Relies id w := by
  rcases branch_goto h with ⟨previous, blob, rfl, hprev, -⟩ | ⟨-, rfl | ⟨rfl, -⟩⟩
  · refine hr.mono ?_ rfl (by rintro _ _ _ _ ⟨⟩)
    simp only [chosen, hprev]
    exact List.Subset.refl _
  · exact .of_nil rfl (by rintro _ _ _ _ ⟨⟩)
  · exact .of_nil rfl (by rintro _ _ _ _ ⟨⟩)

/-- The row of a rebuild whose current generation is covered names covered generations only. -/
theorem World.Archives.currentRelease (hw : w.Archives) {row : Workspace} (hrow : w.liveRow id = some row)
    (hg : row.previousSandboxName.isSome = true → w.Covered row.sandboxName) :
    (RebuildPc.currentRelease row).Relies id w := by
  refine ⟨fun name hm => ?_, by rintro _ _ _ _ ⟨⟩⟩
  simp only [RebuildPc.chosen] at hm
  split at hm
  · rename_i previous hprev
    show w.Covered name
    rcases List.mem_pair.1 hm with rfl | rfl
    · exact hg (by rw [hprev]; rfl)
    · exact (hw.previous id row _ (World.liveRow_eq_some.1 hrow).1 hprev).2
  · cases hm

theorem World.tarCovers_startArchive : ((Stmt.startArchive name).exec cfg w).TarCovers name := by
  intro sb hsb ht
  simp only [Stmt.exec, stepStartArchive, Function.update_self] at hsb
  obtain ⟨sb, -, rfl⟩ := Option.map_eq_some_iff.1 hsb
  exact le_refl _

theorem World.TarCovers.finishArchive (h : w.TarCovers name) (ht : (w.archiveTmp name).isSome = true) :
    ((Stmt.finishArchive name).exec cfg w).Covered name := by
  obtain ⟨sb, hsb, ht⟩ := World.exists_of_archiveTmp ht
  unfold World.Covered
  rw [Stmt.finishArchive_archived hsb]
  exact h sb hsb ht

/-- A rebuild relies on the same after a step, or on what the step has brought about. -/
theorem RebuildPc.next_relies {upgrade : Option EditorRelease} {pc pc' : RebuildPc} {a : Answer} {d : Did RebuildPc}
    (hw : w.Archives) (hg : pc.Spares id w) (hr : pc.Relies id w) (h : pc.next id upgrade a w = some d)
    (hd : d.next = .goto pc') (hr' : pc.Relies id (d.stmt.exec cfg w)) : pc'.Relies id (d.stmt.exec cfg w) := by
  revert h hd hr'
  fun_cases RebuildPc.next id upgrade pc a w
  case case1 ws release hrow =>
    rintro ⟨⟩ hd -
    exact branch_relies hd (hw.currentRelease hrow (hg ws hrow))
  case case2 ws hrow =>
    rintro ⟨⟩ ⟨⟩ -
    exact hw.currentRelease hrow (hg ws hrow)
  case case4 ws release => rintro ⟨⟩ hd hr'; exact branch_relies hd hr'
  all_goals first
    | (rintro ⟨⟩ ⟨⟩ hr'; exact hr'.mono (List.Subset.refl _) rfl (by rintro _ _ _ _ ⟨⟩))
    | (rintro ⟨⟩ ⟨⟩ -; exact .of_nil rfl (by rintro _ _ _ _ ⟨⟩))
    | (rintro ⟨⟩ ⟨⟩; done)
    | skip
  case case6 ws release previous blob how =>
    rintro ⟨⟩ ⟨⟩ hr'
    exact hr'.mono (List.subset_cons_self _ _) rfl (by rintro _ _ _ _ ⟨⟩)
  case case8 ws release child =>
    intro h hd hr'
    obtain ⟨d', -, rfl⟩ := Option.map_eq_some_iff.1 h
    rcases Did.within_goto hd with ⟨c, rfl⟩ | he
    · exact .of_nil rfl (by rintro _ _ _ _ ⟨⟩)
    · cases he
      exact .of_nil rfl (by rintro _ _ _ _ ⟨⟩)
  case case13 ws release hsb =>
    rintro ⟨⟩ ⟨⟩ -
    refine ⟨fun name hm => ?_, by rintro _ _ _ _ ⟨⟩⟩
    obtain rfl := List.mem_singleton.1 hm
    exact World.tarCovers_startArchive
  case case19 ws release ht =>
    rintro ⟨⟩ ⟨⟩ -
    refine ⟨fun name hm => ?_, by rintro _ _ _ _ ⟨⟩⟩
    obtain rfl := List.mem_singleton.1 hm
    exact World.TarCovers.finishArchive (hr.chosen _ hm) (by simpa [Option.isSome_iff_ne_none] using ht)
  case case22 ws release blob row hrow =>
    rintro ⟨⟩ ⟨⟩ -
    replace hrow : w.rows id = some row := (Option.filter_eq_some_iff.1 hrow).1
    refine ⟨fun name hm => ?_, ?_⟩
    · obtain rfl := List.mem_singleton.1 hm
      -- the row names the generation that was archived, or one that is covered anyway
      by_cases hname : row.sandboxName = ws.sandboxName
      · exact hr.chosen _ (List.mem_singleton.2 hname)
      · exact hg row hrow hname
    · rintro _ _ _ _ ⟨⟩
      exact hw.named id row hrow
  case case25 previous blob child =>
    intro h hd hr'
    obtain ⟨d', -, rfl⟩ := Option.map_eq_some_iff.1 h
    rcases Did.within_goto hd with ⟨c, rfl⟩ | he
    · exact hr'.mono (List.Subset.refl _) rfl (by rintro _ _ _ _ ⟨⟩)
    · cases he
      exact hr'.mono (List.Subset.refl _) rfl (by rintro _ _ _ _ ⟨⟩)

/-- The two statements that only a rebuild performs. -/
def Stmt.Rebuilds : Stmt → Prop
  | .bumpGeneration _ _ _ _ | .finishArchive _ => True
  | _ => False

theorem Body.next_rebuilds {input : Input} {b : Body} {a : Answer} {d : Did Body} (h : b.next cfg id input a w = some d)
    (hs : d.stmt.Rebuilds) : ∃ upgrade pc d', b = .rebuild pc ∧ pc.next id upgrade a w = some d' ∧ d'.stmt = d.stmt := by
  revert h hs
  fun_cases Body.next cfg id input b a w
  case case7 => rintro ⟨⟩
  all_goals
    intro h hs
    obtain ⟨d', hd', rfl⟩ := Option.map_eq_some_iff.1 h
    replace hs : d'.stmt.Rebuilds := hs
  case case5 upgrade pc => exact ⟨upgrade, pc, d', rfl, hd', rfl⟩
  all_goals
    exfalso
    revert hd' hs
  case case1 pc => fun_cases CreatePc.next cfg id pc a w <;> rintro ⟨⟩ ⟨⟩
  case case2 pc => fun_cases ConnectPc.next cfg id pc a w <;> rintro ⟨⟩ ⟨⟩
  case case3 reason _ pc => fun_cases StopPc.next id reason pc a w <;> rintro ⟨⟩ ⟨⟩
  case case4 pc =>
    fun_cases RestartPc.next pc a w <;>
      exact fun hc hs => by rw [ChildPc.within_stmt hc] at hs; exact hs
  case case6 pc =>
    fun_cases DeletePc.next id pc a w <;> first
      | exact fun hc hs => by rw [ChildPc.within_stmt hc] at hs; exact hs
      | rintro ⟨⟩ ⟨⟩

/-- A body that is a rebuild after a step was one before. -/
theorem Body.next_rebuild {input : Input} {b : Body} {a : Answer} {d : Did Body} {pc' : RebuildPc}
    (h : b.next cfg id input a w = some d) (hd : d.next = .goto (.rebuild pc')) :
    ∃ upgrade pc d', b = .rebuild pc ∧ pc.next id upgrade a w = some d' ∧ d'.stmt = d.stmt ∧ d'.next = .goto pc' := by
  revert h hd
  fun_cases Body.next cfg id input b a w
  case case7 => rintro ⟨⟩
  all_goals
    intro h hd
    obtain ⟨d', hd', rfl⟩ := Option.map_eq_some_iff.1 h
    obtain ⟨p, hp, he⟩ := Did.inBody_goto hd
    cases he
  exact ⟨_, _, d', rfl, hd', rfl, hp⟩

/-- The bump of a rebuild leaves a generation it relies on, and its archive is stored when there is one. -/
theorem RebuildPc.next_stmt {upgrade : Option EditorRelease} {pc : RebuildPc} {a : Answer} {d : Did RebuildPc}
    (hr : pc.Relies id w) (h : pc.next id upgrade a w = some d) :
    (∀ j read blob release, d.stmt = .bumpGeneration j read blob release →
      read.sandboxName.workspace = j ∧ w.Covered read.sandboxName) ∧
      ∀ name, d.stmt = .finishArchive name → (w.archiveTmp name).isSome = true := by
  revert h
  fun_cases RebuildPc.next id upgrade pc a w
  case case19 ws release ht =>
    rintro ⟨⟩
    refine ⟨by rintro _ _ _ _ ⟨⟩, ?_⟩
    rintro name ⟨⟩
    simpa [Option.isSome_iff_ne_none] using ht
  case case24 ws read release blob =>
    rintro ⟨⟩
    refine ⟨?_, by rintro _ ⟨⟩⟩
    rintro _ _ _ _ ⟨⟩
    exact ⟨hr.read _ _ _ _ rfl, hr.chosen _ (List.mem_singleton.2 rfl)⟩
  all_goals first
    | (rintro ⟨⟩ <;> exact ⟨by rintro _ _ _ _ ⟨⟩, by rintro _ ⟨⟩⟩)
    | (intro h
       rw [ChildPc.within_stmt h]
       exact ⟨by rintro _ _ _ _ ⟨⟩, by rintro _ ⟨⟩⟩)

/-- The process relies on what its rebuild relies on. -/
def Proc.Relies (p : Proc) (w : World) : Prop :=
  ∀ r pc, p = .run r → r.phase = .body (.rebuild pc) → pc.Relies r.ws w

theorem Proc.chosen_eq {r : Run} {pc : RebuildPc} (h : r.phase = .body (.rebuild pc)) : (Proc.run r).chosen = pc.chosen := by
  obtain ⟨ws, input, starter, phase⟩ := r
  cases h
  rfl

theorem Proc.Relies.exec {k : Pid} {p : Proc} (hw : s.world.Archives) (hp : s.procs k = some p) (h : SoundFor s stmt)
    (hr : p.Relies s.world) : p.Relies (stmt.exec cfg s.world) := by
  rintro r pc rfl hpc
  obtain ⟨hchosen, hread⟩ := hr r pc rfl hpc
  refine ⟨fun name hm => ?_, hread⟩
  have hmem : ∃ k q, s.procs k = some q ∧ name ∈ q.chosen := ⟨k, _, hp, by rw [Proc.chosen_eq hpc]; exact hm⟩
  have hc := hchosen name hm
  by_cases harch : pc.archiving = true
  · rw [if_pos harch] at hc ⊢
    exact hc.exec h hmem
  · rw [if_neg harch] at hc ⊢
    exact hc.exec hw h (.inr hmem)

theorem SoundFor.of_quiet (h : stmt.Regular) (hb : ¬ stmt.Rebuilds)
    (ho : ∀ id read input, stmt ≠ .openSession id read input) : SoundFor s stmt := by
  refine ⟨h, ?_, ?_, fun id read input he => absurd he (ho id read input)⟩
  · rintro id read blob release rfl
    exact absurd trivial hb
  · rintro name rfl
    exact absurd trivial hb

theorem SoundFor.of_call {me : CallId} (h : stmt.ofCall id me) : SoundFor s stmt := by
  refine .of_quiet h.regular ?_ ?_
  · cases stmt <;> first | exact h.elim | exact fun h => h
  · rintro _ _ _ rfl
    exact h

/-! ## The control plane -/

theorem Proc.relies_of_not_run {p : Proc} (h : ∀ r, p ≠ .run r) : p.Relies w := fun r _ he _ => absurd he (h r)

/-- A process that spares newer edits performs sound statements, and relies on what it has read. -/
theorem Proc.next_relies {n : Pid} {a : Answer} {p p' : Proc} {st : Option Starts} (hw : s.world.Archives)
    (hg : SparesEdits s (.act n a)) (hp : s.procs n = some p) (hr : p.Relies s.world)
    (h : p.next cfg n a s.world = some (stmt, p', st)) :
    SoundFor s stmt ∧ (p.Relies (stmt.exec cfg s.world) → p'.Relies (stmt.exec cfg s.world)) := by
  cases p with
  | run r =>
    obtain ⟨r', st', hrun, rfl, -⟩ := Proc.next_run h
    cases hrun with
    | @body b d at_ hb =>
      have hof := Body.next_ofBody hb
      constructor
      · by_cases hreb : d.stmt.Rebuilds
        · obtain ⟨upgrade, pc, d', rfl, hpc, hd⟩ := Body.next_rebuilds hb hreb
          obtain ⟨hbump, harch⟩ := RebuildPc.next_stmt (hr r pc rfl at_) hpc
          rw [hd] at hbump harch
          refine ⟨hof.regular, hbump, harch, fun id read input he => ?_⟩
          rw [he] at hof
          exact hof.elim
        · refine .of_quiet hof.regular hreb fun id read input he => ?_
          rw [he] at hof
          exact hof.elim
      · intro hr' r₁ pc' he hpc'
        cases he
        obtain ⟨upgrade, pc, d', rfl, hpc, hd, hgoto⟩ := Body.next_rebuild hb (Run.afterBody_body hpc')
        have hrel' := hr' r pc rfl at_
        rw [← hd] at hrel' ⊢
        have hspares : pc.Spares r.ws s.world := by
          obtain ⟨id, input, starter, phase⟩ := r
          cases at_
          simpa only [SparesEdits, Sys.acting, hp] using hg
        exact RebuildPc.next_relies hw hspares (hr r pc rfl at_) hpc hgoto hrel'
    | finished at_ ok =>
      refine ⟨.of_quiet trivial (fun h => h) (by rintro _ _ _ ⟨⟩), ?_⟩
      rintro - r₁ pc' ⟨⟩ ⟨⟩
    | retried at_ =>
      refine ⟨.of_quiet trivial (fun h => h) (by rintro _ _ _ ⟨⟩), ?_⟩
      rintro - r₁ pc' ⟨⟩ ⟨⟩
  | request r =>
    obtain ⟨pc, hreq, rfl⟩ := Proc.next_request h
    refine ⟨?_, fun _ => Proc.relies_of_not_run (by rintro _ ⟨⟩)⟩
    obtain ⟨input, pc₀⟩ := r
    cases RequestPc.performs_of_next hreq with
    | call hof => exact .of_call hof
    | openSession =>
      refine ⟨trivial, by rintro _ _ _ _ ⟨⟩, by rintro _ ⟨⟩, ?_⟩
      rintro _ _ _ ⟨⟩
      simpa only [SparesEdits, Sys.acting, hp] using hg
    | quiet | lostClose | lostUpdate => exact .of_quiet trivial (fun h => h) (by rintro _ _ _ ⟨⟩)
  | call c =>
    obtain ⟨pc, hc, rfl⟩ := Proc.next_call h
    exact ⟨.of_call (CallPc.next_ofCall hc), fun _ => Proc.relies_of_not_run (by rintro _ ⟨⟩)⟩
  | reconcile r =>
    obtain ⟨pc, hc, rfl, -⟩ := Proc.next_reconcile h
    refine ⟨?_, fun _ => Proc.relies_of_not_run (by rintro _ ⟨⟩)⟩
    rcases ReconcilePc.next_cases hc with rfl | ⟨error, -, rfl⟩ <;>
      exact .of_quiet trivial (fun h => h) (by rintro _ _ _ ⟨⟩)
  | gc g =>
    obtain ⟨pc, hgc, rfl⟩ := Proc.next_gc h
    refine ⟨?_, fun _ => Proc.relies_of_not_run (by rintro _ ⟨⟩)⟩
    obtain ⟨now, pc₀⟩ := g
    cases GcPc.performs_of_next hgc <;> exact .of_quiet trivial (fun h => h) (by rintro _ _ _ ⟨⟩)

theorem World.archives_empty (now : Int) : (World.empty now).Archives := by
  refine ⟨by rintro id row ⟨⟩, by rintro id row p ⟨⟩, fun _ => le_refl _, by rintro name sb ⟨⟩⟩

theorem spares_outline (cfg : Config) :
    WorldOutline cfg SparesEdits SoundFor World.Archives (fun p w => p.Relies w) where
  init := World.archives_empty
  whole s stmt hw h := hw.exec h
  each s stmt k q hw hq h hr := hr.exec hw hq h
  arrive := by
    intro s n i stmt p _ _ h
    rcases Arrival.accept_cases h with
      ⟨_, _, _, -, -, rfl, rfl⟩ | ⟨rfl, ⟨_, _, -, rfl⟩ | ⟨_, rfl⟩ | ⟨_, rfl⟩ | rfl⟩
    all_goals exact ⟨.of_quiet trivial (fun h => h) (by rintro _ _ _ ⟨⟩), Proc.relies_of_not_run (by rintro _ ⟨⟩)⟩
  act s n a p stmt p' st hw hg hp hr h := Proc.next_relies hw hg hp hr h
  fresh id input starter w := by
    rintro r pc ⟨⟩ hpc
    cases input <;> cases hpc
    exact .of_nil rfl (by rintro _ _ _ _ ⟨⟩)
  ended r w := by rintro r' pc ⟨⟩ ⟨⟩
  env s e _ _ := .of_quiet e.stmt_regular (by cases e <;> exact fun h => h) (by cases e <;> rintro _ _ _ ⟨⟩)

theorem Sys.rebuilding_of_aboutToDiscard {n : Pid} (h : s.aboutToDiscard n = some name) :
    ∃ r pc, s.procs n = some (.run r) ∧ r.phase = .body (.rebuild pc) ∧ pc.discards = some name := by
  obtain ⟨pc, hpc, hd⟩ := Option.bind_eq_some_iff.1 h
  obtain ⟨p, hp, hpc⟩ := Option.bind_eq_some_iff.1 hpc
  unfold Proc.rebuildPc at hpc
  split at hpc
  · cases hpc
    exact ⟨_, _, hp, rfl, hd⟩
  · cases hpc

/-- What a rebuild deletes it has chosen, and no archive of it is under way. -/
theorem RebuildPc.chosen_of_discards {pc : RebuildPc} (h : pc.discards = some name) :
    name ∈ pc.chosen ∧ pc.archiving = false := by
  cases pc <;> cases h
  · exact ⟨List.mem_cons_self, rfl⟩
  · exact ⟨List.mem_cons_self, rfl⟩

end

/-- A rebuild that spares newer edits deletes only generations whose editor sessions are all archived. -/
theorem rebuild_spares_edits {s : Sys} {n : Pid} (h : (lifecycle cfg).Reach SparesEdits s)
    (hd : s.aboutToDiscard n = some name) : s.world.Covered name := by
  have hs := (spares_outline cfg).outline.holds h
  obtain ⟨r, pc, hp, hpc, hdisc⟩ := Sys.rebuilding_of_aboutToDiscard hd
  obtain ⟨hm, harch⟩ := RebuildPc.chosen_of_discards hdisc
  have hc := (hs.each n _ hp r pc rfl hpc).chosen name hm
  rwa [harch] at hc

/-! ## Runs -/

/-- A request that redials a running workspace up to the session it opens. -/
def reconnects (id : WsId) (request : Pid) : List SysEvent :=
  [.arrive request (.connect id .reconnect 1 none)] ++ steps request 2 ++
    [.act request (.release oldRelease), .act request (.sandboxStatus (some (some .running))), .act request ready] ++
    steps request 1

/-- A rebuild of a running workspace up to its wait for the create child: the stop child `stop`, the archive,
the bump, the start of `create`. -/
def rebuilds (id : WsId) (call : CallId) (run stop create : RunId) : List SysEvent :=
  [.arrive call (.start id (.rebuildWorkspace none))] ++ startsRun call run ++ steps run 1 ++
    [.act run (.release oldRelease), .act run (.started stop)] ++ steps run 1 ++ steps stop 3 ++
    [.act stop (.exit (some 0)), .act stop (.snapshot none)] ++ steps stop 2 ++
    [.act run (.status .completed)] ++ steps run 4 ++ [.act run (.exit (some 0))] ++ steps run 5 ++
    [.act run (.started create)] ++ steps run 1

/-- The create run up to its last step, in the generation it boots. -/
def creates (id : WsId) (run : RunId) (generation : Nat) : List SysEvent :=
  steps run 5 ++ [.act run (.cmd run), .env (.boot (newSandboxName id generation) 7), .act run ready]

/-- The old generation is deleted with a session in it that the archive came after. -/
theorem rebuild_spares_edits_archived : ∃ s : Sys, s.aboutToDiscard 4 = some (newSandboxName 0 1) ∧
    s.world.hist.opened (newSandboxName 0 1) = 1 ∧ s.world.Covered (newSandboxName 0 1) := by
  obtain ⟨s, hr, hd, ho⟩ := exists_reach_of_execs (G := SparesEdits)
    (fun s : Sys => s.aboutToDiscard 4 = some (newSandboxName 0 1) ∧
      s.world.hist.opened (newSandboxName 0 1) = 1)
    (createsWorkspace 0 0 1 7 ++ reconnects 0 2 ++ rebuilds 0 3 4 5 6 ++ creates 0 6 2 ++ steps 6 1 ++
      [.act 4 (.status .completed)] ++ steps 4 1) (lifecycle_init deployment 0) (by decide) (by decide)
  exact ⟨s, hd, ho, rebuild_spares_edits hr hd⟩

/-- The parent gives its create child up as lost, the child completes, an editor reconnects, and the next
rebuild deletes the generation it works in. -/
theorem rebuild_deletes_newer_edits : ¬ ∀ (cfg : Config) (s : Sys) (n : Pid) (name : SandboxName),
    (lifecycle cfg).Reach System.free s → s.aboutToDiscard n = some name → s.world.Covered name := by
  intro h
  obtain ⟨s, hr, hd, hc⟩ := exists_reach_of_exec
    (fun s : Sys => s.aboutToDiscard 8 = some (newSandboxName 0 2) ∧ ¬ s.world.Covered (newSandboxName 0 2))
    (createsWorkspace 0 0 1 7 ++ rebuilds 0 2 3 4 5 ++ creates 0 5 2 ++
      [.env (.tick (46 * 60000)), .act 3 (.status .unknown)] ++ steps 3 1 ++ steps 5 1 ++ reconnects 0 6 ++
      [.arrive 7 (.start 0 (.rebuildWorkspace none))] ++ startsRun 7 8 ++ steps 8 1 ++ [.act 8 (.release oldRelease)] ++
      steps 8 1) (lifecycle_init deployment 0) (by decide +kernel)
  exact hc (h deployment s 8 _ hr hd)

end Zedspaces.Lifecycle
