/-
The names of sandboxes. A row names its current generation and, while a rebuild is under way, the one
before it; a bump goes one generation up. As long as every bump is written over a row that still names the
generation the bump has read, generations never go down: a name that no row carries any more never comes
back, and a sandbox is never of a generation its row has not reached.
-/
import Zedspaces.Lifecycle.Effects

namespace Zedspaces.Lifecycle

open Lib

variable {cfg : Config} {w : World} {stmt : Stmt} {id : WsId} {name : SandboxName}

/-- The row carries the name, as its current or its previous generation. -/
def Workspace.Carries (row : Workspace) (name : SandboxName) : Prop :=
  row.sandboxName = name ∨ row.previousSandboxName = some name

instance (row : Workspace) (name : SandboxName) : Decidable (row.Carries name) :=
  inferInstanceAs (Decidable (_ ∨ _))

/-- The names of the row of `id` are those of its generation and of the one before. -/
structure Workspace.Named (id : WsId) (row : Workspace) : Prop where
  current : row.sandboxName = newSandboxName id row.sandboxGeneration
  previous : ∀ p ∈ row.previousSandboxName, p.workspace = id ∧ p.generation + 1 = row.sandboxGeneration

/-- The name is of a workspace there is, and of a generation its row has reached. -/
def World.Issued (w : World) (name : SandboxName) : Prop :=
  ∃ row, w.rows name.workspace = some row ∧ name.generation ≤ row.sandboxGeneration

/-- The name was issued, and no undeleted row carries it. -/
def World.Dropped (w : World) (name : SandboxName) : Prop := w.Issued name ∧ ¬ w.Names name

structure World.Generations (w : World) : Prop where
  listed : ∀ id row, w.rows id = some row → id ∈ w.ids
  rows : ∀ id row, w.rows id = some row → row.Named id
  sandboxes : ∀ name, w.sandboxes name ≠ none → w.Issued name

/-- The statement keeps generations in order: an inserted row is new, a sandbox is created under an issued
name, and a bump is written over a row that still carries the name it has read. -/
def Stmt.Orderly (w : World) : Stmt → Prop
  | .setState _ _ _ patch => patch = .none ∨ patch = .clearArchive ∨ patch = .clearPointers
  | .insertWorkspace id _ _ => w.rows id = none
  | .getOrCreate name => w.Issued name
  | .bumpGeneration id read _ _ => read.sandboxName = newSandboxName id read.sandboxGeneration ∧
      ∀ row, w.rows id = some row → row.Carries read.sandboxName
  | _ => True

/-! ## Rows -/

theorem Workspace.Named.workspace_eq {row : Workspace} (h : row.Named id) (hc : row.Carries name) :
    name.workspace = id := by
  rcases hc with rfl | hp
  · rw [h.current]
    rfl
  · exact (h.previous name hp).1

theorem Workspace.Named.generation_le {row : Workspace} (h : row.Named id) (hc : row.Carries name) :
    name.generation ≤ row.sandboxGeneration := by
  rcases hc with rfl | hp
  · rw [h.current]
    exact le_refl _
  · have := (h.previous name hp).2
    omega

/-- What a statement does to the names of a row: it drops the previous one at most, or goes one
generation up, or writes the last bump again. -/
structure Workspace.Moves (row row' : Workspace) : Prop where
  generation : row.sandboxGeneration ≤ row'.sandboxGeneration
  carries : ∀ name, row'.Carries name → row.Carries name ∨ row.sandboxGeneration < name.generation

/-- The row carries the same names, or the previous one no more. -/
structure Workspace.Keeps (row row' : Workspace) : Prop where
  name : row'.sandboxName = row.sandboxName
  generation : row'.sandboxGeneration = row.sandboxGeneration
  previous : row'.previousSandboxName = row.previousSandboxName ∨ row'.previousSandboxName = none

theorem Workspace.Keeps.refl (row : Workspace) : row.Keeps row := ⟨rfl, rfl, .inl rfl⟩

theorem Workspace.Keeps.moves {row row' : Workspace} (h : row.Keeps row') : row.Moves row' := by
  refine ⟨le_of_eq h.generation.symm, fun name hc => .inl ?_⟩
  rcases hc with hc | hc
  · exact .inl (h.name ▸ hc)
  · rcases h.previous with hp | hp
    · exact .inr (hp ▸ hc)
    · rw [hp] at hc
      cases hc

theorem Workspace.Keeps.named {row row' : Workspace} (h : row.Keeps row') (hn : row.Named id) : row'.Named id := by
  refine ⟨by rw [h.name, h.generation]; exact hn.current, fun p hpp => ?_⟩
  rcases h.previous with hp | hp
  · rw [h.generation]
    exact hn.previous p (hp ▸ hpp)
  · rw [hp] at hpp
    cases hpp

/-- A regular statement that is no bump keeps the names of a row, or drops the previous one. -/
theorem Stmt.onRow_keeps (hr : stmt.Regular) (hb : ∀ j read blob release, stmt ≠ .bumpGeneration j read blob release)
    (row : Workspace) : row.Keeps (stmt.onRow cfg w id row) := by
  cases stmt with
  | bumpGeneration j read blob release => exact absurd rfl (hb _ _ _ _)
  | setState j state reason patch =>
    simp only [onRow]
    split
    · rcases hr with rfl | rfl | rfl
      · exact ⟨rfl, rfl, .inl rfl⟩
      · exact ⟨rfl, rfl, .inl rfl⟩
      · exact ⟨rfl, rfl, .inr rfl⟩
    · exact .refl row
  | _ =>
    simp only [onRow, Workspace.finishRun, Workspace.noteBootPhase, Workspace.markLost, Workspace.replaceRunId,
      Workspace.releaseRun]
    repeat' split
    all_goals exact ⟨rfl, rfl, .inl rfl⟩

theorem Stmt.Orderly.regular (h : stmt.Orderly w) : stmt.Regular := by
  cases stmt with
  | setState j state reason patch => exact h
  | _ => trivial

/-- A deleted row stays deleted. -/
theorem Stmt.onRow_deletedAt {row : Workspace} (h : (stmt.onRow cfg w id row).deletedAt = none) :
    row.deletedAt = none := by
  cases stmt with
  | purgeRows j =>
    simp only [onRow] at h
    split at h
    · cases h
    · exact h
  | _ =>
    simp only [onRow, Workspace.finishRun, Workspace.noteBootPhase, Workspace.markLost, Workspace.replaceRunId,
      Workspace.releaseRun] at h
    repeat' split at h
    all_goals exact h

/-- An orderly statement moves the names of a row. -/
theorem Stmt.Orderly.onRow (h : stmt.Orderly w) {row : Workspace} (hrow : w.rows id = some row) (hn : row.Named id) :
    (stmt.onRow cfg w id row).Named id ∧ row.Moves (stmt.onRow cfg w id row) := by
  by_cases hb : ∀ j read blob release, stmt ≠ .bumpGeneration j read blob release
  · have hk : row.Keeps (stmt.onRow cfg w id row) := Stmt.onRow_keeps h.regular hb row
    exact ⟨hk.named hn, hk.moves⟩
  simp only [not_forall, not_not] at hb
  obtain ⟨j, read, blob, release, rfl⟩ := hb
  by_cases hj : j = id
  · subst hj
    obtain ⟨hread, hcarries⟩ := h
    have hrd := hcarries row hrow
    have hle := hn.generation_le hrd
    simp only [Stmt.onRow, ↓reduceIte]
    rw [hread] at hle
    refine ⟨⟨rfl, ?_⟩, ⟨?_, ?_⟩⟩
    · rintro p ⟨⟩
      rw [hread]
      exact ⟨rfl, rfl⟩
    · show row.sandboxGeneration ≤ read.sandboxGeneration + 1
      rcases hrd with hc | hp
      · have : row.sandboxGeneration = read.sandboxGeneration := by
          have := hn.current.symm.trans (hc.trans hread)
          exact congrArg SandboxName.generation this
        omega
      · have := (hn.previous _ hp).2
        rw [hread] at this
        exact le_of_eq this.symm
    · rintro name (rfl | hp)
      · show row.Carries (newSandboxName j (read.sandboxGeneration + 1)) ∨ row.sandboxGeneration < read.sandboxGeneration + 1
        rcases hrd with hc | hp
        · have := congrArg SandboxName.generation (hn.current.symm.trans (hc.trans hread))
          exact .inr (Nat.lt_succ_of_le (le_of_eq this))
        · have := (hn.previous _ hp).2
          rw [hread] at this
          left; left
          rw [hn.current, ← this]
          rfl
      · cases hp
        exact .inl hrd
  · simp only [Stmt.onRow, if_neg hj]
    exact ⟨hn, (Workspace.Keeps.refl row).moves⟩

/-! ## The world -/

/-- A row after an orderly statement is a row before it, moved, or a new one. -/
theorem Stmt.Orderly.exec_rows (h : stmt.Orderly w) {row' : Workspace} (hrow : (stmt.exec cfg w).rows id = some row') :
    (∃ row, w.rows id = some row ∧ row' = stmt.onRow cfg w id row) ∨
      ∃ release idle, stmt = .insertWorkspace id release idle ∧ w.rows id = none ∧
        row' = newWorkspace id release idle w.now := by
  rcases Stmt.exec_rows_cases hrow with hold | ⟨release, idle, rfl, rfl⟩
  · exact .inl hold
  · exact .inr ⟨release, idle, rfl, h, rfl⟩

/-- A row that is there stays there. -/
theorem Stmt.Orderly.rows_kept (h : stmt.Orderly w) {row : Workspace} (hrow : w.rows id = some row) :
    (stmt.exec cfg w).rows id = some (stmt.onRow cfg w id row) := by
  rw [Stmt.exec_rows cfg stmt w id, hrow]
  · rfl
  · rintro release idle rfl
    cases (show w.rows id = none from h).symm.trans hrow

theorem World.Issued.exec (hw : w.Generations) (h : stmt.Orderly w) (hi : w.Issued name) :
    (stmt.exec cfg w).Issued name := by
  obtain ⟨row, hrow, hle⟩ := hi
  exact ⟨_, h.rows_kept hrow, hle.trans (h.onRow hrow (hw.rows _ row hrow)).2.generation⟩

/-- A dropped name stays dropped. -/
theorem World.Dropped.exec (hw : w.Generations) (h : stmt.Orderly w) (hd : w.Dropped name) :
    (stmt.exec cfg w).Dropped name := by
  refine ⟨hd.1.exec hw h, ?_⟩
  rintro ⟨i, row', hrow', hlive, hc⟩
  obtain ⟨⟨row, hrow, hle⟩, hnames⟩ := hd
  rcases h.exec_rows hrow' with ⟨row₀, hrow₀, rfl⟩ | ⟨release, idle, -, hnone, rfl⟩
  · have hon : (stmt.onRow cfg w i row₀).Named i ∧ row₀.Moves (stmt.onRow cfg w i row₀) :=
      h.onRow hrow₀ (hw.rows _ _ hrow₀)
    obtain ⟨hnamed, hmoves⟩ := hon
    obtain rfl := hnamed.workspace_eq hc
    cases hrow.symm.trans hrow₀
    rcases hmoves.carries name hc with hold | hlt
    · exact hnames ⟨_, _, hrow, Stmt.onRow_deletedAt hlive, hold⟩
    · exact absurd hle (Nat.not_le_of_lt hlt)
  · rcases hc with rfl | hp
    · cases hrow.symm.trans hnone
    · cases hp

/-- A sandbox comes to be only under the name it is asked for. -/
theorem Stmt.exec_sandboxes (cfg : Config) (h : (stmt.exec cfg w).sandboxes name ≠ none) :
    w.sandboxes name ≠ none ∨ stmt = .getOrCreate name := by
  by_contra hc
  obtain ⟨hnone, hne⟩ := not_or.1 hc
  rw [not_not] at hnone
  apply h
  rw [Stmt.exec_onSandbox, hnone]
  cases stmt with
  | getOrCreate other =>
    have hother : name ≠ other := by rintro rfl; exact hne rfl
    exact if_neg hother
  | deleteSandbox other how => cases how <;> simp [onSandbox]
  | boot other checkout => simp [onSandbox, World.booted, hnone]
  | _ => simp [onSandbox]

/-- The workspaces are listed and their names are kept in order. -/
theorem World.Generations.exec (hw : w.Generations) (h : stmt.Orderly w) : (stmt.exec cfg w).Generations := by
  refine ⟨fun i row' hrow => ?_, fun i row' hrow => ?_, fun name hsb => ?_⟩
  · rcases h.exec_rows hrow with ⟨row, hrow₀, -⟩ | ⟨release, idle, rfl, -, -⟩
    · have hmem := hw.listed i row hrow₀
      cases stmt with
      | insertWorkspace j release idle => exact List.mem_append_left _ hmem
      | deleteSandbox other how => cases how <;> exact hmem
      | _ => exact hmem
    · exact List.mem_append_right _ (List.mem_singleton.2 rfl)
  · rcases h.exec_rows hrow with ⟨row, hrow₀, rfl⟩ | ⟨release, idle, -, -, rfl⟩
    · exact (h.onRow hrow₀ (hw.rows i row hrow₀)).1
    · exact ⟨rfl, by rintro p ⟨⟩⟩
  · rcases Stmt.exec_sandboxes cfg hsb with hsb | rfl
    · exact (hw.sandboxes name hsb).exec hw h
    · exact World.Issued.exec hw h h

theorem World.generations_empty (now : Int) : (World.empty now).Generations := by
  refine ⟨?_, ?_, ?_⟩
  · rintro id row ⟨⟩
  · rintro id row ⟨⟩
  · rintro name h
    exact absurd rfl h

/-- The names `stepGcCandidates` reads are those the undeleted rows carry. -/
theorem mem_knownSandboxNames (hw : w.Generations) : name ∈ knownSandboxNames w ↔ w.Names name := by
  simp only [knownSandboxNames, List.mem_flatMap]
  constructor
  · rintro ⟨i, -, hm⟩
    split at hm
    · rename_i row hrow
      obtain ⟨hrow, hlive⟩ := World.liveRow_eq_some.1 hrow
      refine ⟨i, row, hrow, hlive, ?_⟩
      rcases List.mem_cons.1 hm with rfl | hm
      · exact .inl rfl
      · exact .inr (Option.mem_toList.1 hm)
    · cases hm
  · rintro ⟨i, row, hrow, hlive, hc⟩
    refine ⟨i, hw.listed i row hrow, ?_⟩
    rw [World.liveRow_eq_some.2 ⟨hrow, hlive⟩]
    rcases hc with rfl | hp
    · exact List.mem_cons_self
    · exact List.mem_cons_of_mem _ (Option.mem_toList.2 hp)

/-! ## Runs -/

/-- What the body of a run on `id` knows of names: the sandbox it is about to create has an issued name, and
the row it has read for a bump was named. -/
def Body.KnowsNames (id : WsId) (w : World) : Body → Prop
  | .create (.createSandbox _ input) => w.Issued input.name
  | .rebuild (.bumpWrite _ read _ _) => read.sandboxName = newSandboxName id read.sandboxGeneration
  | _ => True

def Proc.KnowsNames (w : World) : Proc → Prop
  | .run ⟨id, _, _, .body b⟩ => b.KnowsNames id w
  | _ => True

/-- A bump is written over a row that still carries the name it has read. -/
def BumpsInOrder (s : Sys) (e : SysEvent) : Prop := match s.acting e with
  | some (.run ⟨id, _, _, .body (.rebuild (.bumpWrite _ read _ _))⟩) =>
    ∀ row ∈ s.world.rows id, row.Carries read.sandboxName
  | _ => True

instance (s : Sys) (e : SysEvent) : Decidable (BumpsInOrder s e) := by
  unfold BumpsInOrder
  generalize s.acting e = p
  rcases p with _ | ⟨_, _, _, (_ | _ | _ | _ | (_ | _) | _) | _ | _⟩ | _ <;> infer_instance

section
variable {a : Answer} {b b' : Body} {d : Did Body} {input : Input}

theorem World.Generations.issued {row : Workspace} (hw : w.Generations) (h : w.rows id = some row) :
    w.Issued row.sandboxName := by
  have hn := hw.rows id row h
  refine ⟨row, ?_, hn.generation_le (.inl rfl)⟩
  rw [hn.workspace_eq (.inl rfl)]
  exact h

theorem ChildPc.within_orderly {pc' : Type} {f : ChildPc → pc'} {after : Next pc'} {pc : ChildPc} {d : Did pc'}
    (h : (pc.next input a w).map (Did.within f after) = some d) : d.stmt.Orderly w := by
  rw [ChildPc.within_stmt h]
  trivial

theorem CreatePc.next_orderly {pc : CreatePc} {d : Did CreatePc} (h : pc.next cfg id a w = some d)
    (hk : (Body.create pc).KnowsNames id w) : d.stmt.Orderly w := by
  revert h hk
  fun_cases CreatePc.next cfg id pc a w <;> rintro ⟨⟩ hk <;>
    first | trivial | exact hk | exact Workspace.readyPatch_cases _

theorem ConnectPc.next_orderly {pc : ConnectPc} {d : Did ConnectPc} (h : pc.next cfg id a w = some d) :
    d.stmt.Orderly w := by
  revert h
  fun_cases ConnectPc.next cfg id pc a w <;> rintro ⟨⟩ <;> first | trivial | exact .inl rfl

theorem StopPc.next_orderly {reason : StopReason} {pc : StopPc} {d : Did StopPc} (h : pc.next id reason a w = some d) :
    d.stmt.Orderly w := by
  revert h
  fun_cases StopPc.next id reason pc a w <;> rintro ⟨⟩ <;> first | trivial | exact .inl rfl

theorem DeletePc.next_orderly {pc : DeletePc} {d : Did DeletePc} (h : pc.next id a w = some d) : d.stmt.Orderly w := by
  revert h
  fun_cases DeletePc.next id pc a w
  all_goals first
    | exact ChildPc.within_orderly
    | (rintro ⟨⟩ <;> first | trivial | exact .inl rfl)

theorem RebuildPc.next_orderly {upgrade : Option EditorRelease} {pc : RebuildPc} {d : Did RebuildPc}
    (h : pc.next id upgrade a w = some d) (hk : (Body.rebuild pc).KnowsNames id w)
    (hb : ∀ ws read release blob, pc = .bumpWrite ws read release blob → ∀ row ∈ w.rows id, row.Carries read.sandboxName) :
    d.stmt.Orderly w := by
  revert h hk
  fun_cases RebuildPc.next id upgrade pc a w
  all_goals first
    | exact fun h _ => ChildPc.within_orderly h
    | (rintro ⟨⟩ hk <;> first | trivial | exact .inl rfl | exact .inr (.inr rfl) | exact ⟨hk, hb _ _ _ _ rfl⟩)

theorem RestartPc.next_orderly {pc : RestartPc} {d : Did RestartPc} (h : pc.next a w = some d) : d.stmt.Orderly w := by
  revert h
  fun_cases RestartPc.next pc a w <;> exact ChildPc.within_orderly

theorem Did.within_goto {pc pc' : Type} {f : pc → pc'} {after : Next pc'} {d : Did pc} {p : pc'}
    (h : (Did.within f after d).next = .goto p) : (∃ q, p = f q) ∨ after = .goto p := by
  simp only [Did.within] at h
  split at h
  · cases h; exact .inl ⟨_, rfl⟩
  · exact .inr h
  · cases h

/-- A rebuild starts with its retry, with a stop or with the archive. -/
theorem RebuildPc.branch_goto {ws : Workspace} {release : EditorRelease} {upgrade : Option EditorRelease} {pc : RebuildPc}
    (h : branch ws release upgrade = .goto pc) :
    (∃ previous blob, pc = .setRetry ws release previous blob ∧ ws.previousSandboxName = some previous ∧
      ws.restoreBlobPathname = some blob ∧ ws.restoreKind = .tarball) ∨
    (ws.previousSandboxName = none ∧ (pc = .stop ws release .start ∨ pc = .setArchive ws release ∧ ws.state = .stopped)) := by
  unfold branch at h
  split at h
  · rename_i previous hprev
    split at h
    · rename_i blob hkind hblob
      cases h
      exact .inl ⟨_, _, rfl, hprev, hblob, hkind⟩
    · cases h
  · rename_i hprev
    split at h
    · cases h
    · split at h <;> cases h
      · exact .inr ⟨hprev, .inl rfl⟩
      · rename_i hstate
        exact .inr ⟨hprev, .inr ⟨rfl, not_not.1 hstate⟩⟩

/-- A rebuild about to write a bump has just read the row. -/
theorem RebuildPc.next_bumpWrite {upgrade : Option EditorRelease} {pc : RebuildPc} {d : Did RebuildPc}
    {ws read : Workspace} {release : EditorRelease} {blob : BlobPath} (h : pc.next id upgrade a w = some d)
    (hd : d.next = .goto (.bumpWrite ws read release blob)) : w.rows id = some read := by
  revert h hd
  fun_cases RebuildPc.next id upgrade pc a w
  case case22 hread =>
    rintro ⟨⟩ ⟨⟩
    exact (Option.filter_eq_some_iff.1 hread).1
  case case1 | case4 =>
    rintro ⟨⟩ hd
    rcases branch_goto hd with ⟨_, _, he, -⟩ | ⟨-, he | ⟨he, -⟩⟩ <;> cases he
  all_goals first
    | (intro h hd
       obtain ⟨d', -, rfl⟩ := Option.map_eq_some_iff.1 h
       rcases Did.within_goto hd with ⟨_, he⟩ | he <;> cases he)
    | (rintro ⟨⟩ hd <;> cases hd)

/-- The body of a run performs orderly statements when its bump is in order. -/
theorem Body.next_orderly (h : b.next cfg id input a w = some d) (hk : b.KnowsNames id w)
    (hb : ∀ ws read release blob, b = .rebuild (.bumpWrite ws read release blob) →
      ∀ row ∈ w.rows id, row.Carries read.sandboxName) : d.stmt.Orderly w := by
  revert h
  fun_cases Body.next cfg id input b a w <;> intro h
  case case7 => cases h
  all_goals obtain ⟨d', hd, rfl⟩ := Option.map_eq_some_iff.1 h
  · exact CreatePc.next_orderly hd hk
  · exact ConnectPc.next_orderly hd
  · exact StopPc.next_orderly hd
  · exact RestartPc.next_orderly hd
  · exact RebuildPc.next_orderly hd hk fun ws read release blob he => hb ws read release blob (he ▸ rfl)
  · exact DeletePc.next_orderly hd

/-- A run that comes to know a name has just read it. -/
theorem Body.next_knowsNames (hw : w.Generations) (h : b.next cfg id input a w = some d) (hd : d.next = .goto b') :
    b'.KnowsNames id w := by
  revert h hd
  fun_cases Body.next cfg id input b a w
  case case7 => rintro ⟨⟩
  case case1 pc =>
    intro h hd
    obtain ⟨d', hd', rfl⟩ := Option.map_eq_some_iff.1 h
    revert hd' hd
    fun_cases CreatePc.next cfg id pc a w <;> rintro ⟨⟩ ⟨⟩ <;> try trivial
    case case5 ws image created he =>
      obtain ⟨row, hrow, rfl⟩ := Option.map_eq_some_iff.1 he
      exact hw.issued hrow
  case case5 upgrade pc =>
    intro h hd
    obtain ⟨d', hd', rfl⟩ := Option.map_eq_some_iff.1 h
    simp only [Did.inBody] at hd
    split at hd
    · rename_i pc' hpc'
      cases hd
      cases pc' with
      | bumpWrite ws read release blob => exact (hw.rows _ _ (RebuildPc.next_bumpWrite hd' hpc')).current
      | _ => trivial
    · cases hd
    · cases hd
  all_goals
    intro h hd
    obtain ⟨d', hd', rfl⟩ := Option.map_eq_some_iff.1 h
    simp only [Did.inBody] at hd
    split at hd <;> cases hd
    trivial

end

/-! ## The control plane -/

theorem Body.KnowsNames.exec {b : Body} (hw : w.Generations) (h : stmt.Orderly w) (hk : b.KnowsNames id w) :
    b.KnowsNames id (stmt.exec cfg w) := by
  unfold KnowsNames at hk ⊢
  split
  · exact World.Issued.exec hw h hk
  · exact hk
  · trivial

theorem Proc.KnowsNames.exec {p : Proc} (hw : w.Generations) (h : stmt.Orderly w) (hk : p.KnowsNames w) :
    p.KnowsNames (stmt.exec cfg w) := by
  unfold KnowsNames at hk ⊢
  split
  · exact Body.KnowsNames.exec hw h hk
  · trivial

theorem Input.body_knowsNames (input : Input) : input.body.KnowsNames id w := by cases input <;> trivial

/-- With its bump in order a process performs orderly statements, and knows the names it has read. -/
theorem Proc.next_orderly {s : Sys} {n : Pid} {a : Answer} {p p' : Proc} {st : Option Starts} (hw : s.world.Generations)
    (hp : s.procs n = some p) (hk : p.KnowsNames s.world) (hg : BumpsInOrder s (.act n a))
    (h : p.next cfg n a s.world = some (stmt, p', st)) : stmt.Orderly s.world ∧ p'.KnowsNames s.world := by
  cases p with
  | run r =>
    obtain ⟨r', st', hr, rfl, -⟩ := Proc.next_run h
    obtain ⟨ws, input, starter, phase⟩ := r
    cases hr with
    | @body b d at_ hb =>
      cases at_
      constructor
      · refine Body.next_orderly hb hk ?_
        rintro _ read release blob rfl
        simpa only [BumpsInOrder, Sys.acting, hp] using hg
      · unfold Proc.KnowsNames
        split
        · rename_i he
          injection he with he
          injection he with hws hin hst hph
          subst hws
          exact Body.next_knowsNames hw hb (Run.afterBody_body hph)
        · trivial
    | finished at_ ok => exact ⟨trivial, trivial⟩
    | retried at_ => exact ⟨trivial, trivial⟩
  | call c =>
    obtain ⟨pc, hc, rfl⟩ := Proc.next_call h
    have hof := CallPc.next_ofCall hc
    refine ⟨?_, trivial⟩
    cases stmt <;> trivial
  | request r =>
    obtain ⟨pc, hr, rfl⟩ := Proc.next_request h
    obtain ⟨input, pc₀⟩ := r
    refine ⟨?_, trivial⟩
    cases RequestPc.performs_of_next hr with
    | call hof => cases stmt <;> trivial
    | _ => trivial
  | reconcile r =>
    obtain ⟨pc, hr, rfl, -⟩ := Proc.next_reconcile h
    rcases ReconcilePc.next_cases hr with rfl | ⟨error, -, rfl⟩ <;> exact ⟨trivial, trivial⟩
  | gc g =>
    obtain ⟨pc, hg, rfl⟩ := Proc.next_gc h
    obtain ⟨now, pc₀⟩ := g
    refine ⟨?_, trivial⟩
    cases GcPc.performs_of_next hg <;> trivial

/-- Only a create run asks for a sandbox. -/
theorem Body.next_getOrCreate {a : Answer} {b : Body} {d : Did Body} {input : Input}
    (h : b.next cfg id input a w = some d) (hd : d.stmt = .getOrCreate name) :
    ∃ ws created, b = .create (.createSandbox ws created) ∧ name = created.name := by
  revert h hd
  fun_cases Body.next cfg id input b a w
  case case7 => rintro ⟨⟩
  all_goals
    intro h hd
    obtain ⟨d', hd', rfl⟩ := Option.map_eq_some_iff.1 h
    replace hd : d'.stmt = .getOrCreate name := hd
    revert hd' hd
  case case1 pc => fun_cases CreatePc.next cfg id pc a w <;> rintro ⟨⟩ ⟨⟩; exact ⟨_, _, rfl, rfl⟩
  case case2 pc => fun_cases ConnectPc.next cfg id pc a w <;> rintro ⟨⟩ ⟨⟩
  case case3 reason _ pc => fun_cases StopPc.next id reason pc a w <;> rintro ⟨⟩ ⟨⟩
  case case4 pc => fun_cases RestartPc.next pc a w <;> exact fun hc hd => by cases (ChildPc.within_stmt hc).symm.trans hd
  case case5 upgrade pc =>
    fun_cases RebuildPc.next id upgrade pc a w <;> first
      | exact fun hc hd => by cases (ChildPc.within_stmt hc).symm.trans hd
      | rintro ⟨⟩ ⟨⟩
  case case6 pc =>
    fun_cases DeletePc.next id pc a w <;> first
      | exact fun hc hd => by cases (ChildPc.within_stmt hc).symm.trans hd
      | rintro ⟨⟩ ⟨⟩

theorem Proc.next_getOrCreate {me : Pid} {a : Answer} {p p' : Proc} {st : Option Starts}
    (h : p.next cfg me a w = some (.getOrCreate name, p', st)) :
    ∃ r ws input, p = .run r ∧ r.phase = .body (.create (.createSandbox ws input)) ∧ name = input.name := by
  cases p with
  | run r =>
    obtain ⟨r', st', hr, -, -⟩ := Proc.next_run h
    generalize hs : Stmt.getOrCreate name = stmt at hr
    cases hr with
    | body at_ hb =>
      obtain ⟨ws, input, rfl, hname⟩ := Body.next_getOrCreate hb hs.symm
      exact ⟨r, ws, input, rfl, at_, hname⟩
    | finished at_ ok => cases hs
    | retried at_ => cases hs
  | _ =>
    cases Proc.next_does h with
    | call h => exact h.elim

theorem Arrival.accept_orderly {i : Arrival} {p : Proc} (h : i.accept cfg w = some (stmt, p)) :
    stmt.Orderly w ∧ ∀ w', p.KnowsNames w' := by
  rcases Arrival.accept_cases h with
    ⟨_, _, _, -, hnone, rfl, rfl⟩ | ⟨rfl, ⟨_, _, -, rfl⟩ | ⟨_, rfl⟩ | ⟨_, rfl⟩ | rfl⟩
  · exact ⟨hnone, fun _ => trivial⟩
  all_goals exact ⟨trivial, fun _ => trivial⟩

theorem Ambient.stmt_orderly (e : Ambient) : e.stmt.Orderly w := by cases e <;> trivial

theorem generations_outline (cfg : Config) {G : Sys → SysEvent → Prop} (hG : ∀ s e, G s e → BumpsInOrder s e) :
    WorldOutline cfg G (fun s stmt => stmt.Orderly s.world) World.Generations (fun p w => p.KnowsNames w) where
  init := World.generations_empty
  whole s stmt hw h := hw.exec h
  each s stmt k q hw _ h hk := hk.exec hw h
  arrive s n i stmt p _ _ h := ⟨(Arrival.accept_orderly h).1, (Arrival.accept_orderly h).2 _⟩
  act := by
    intro s n a p stmt p' st hw hg hp hk h
    obtain ⟨ho, hk'⟩ := Proc.next_orderly hw hp hk (hG _ _ hg) h
    exact ⟨ho, fun _ => hk'.exec hw ho⟩
  fresh id input starter w := input.body_knowsNames
  ended r w := trivial
  env s e _ _ := e.stmt_orderly

/-- What the runs with bumps in order know of names. -/
structure Sys.InOrder (s : Sys) : Prop where
  generations : s.world.Generations
  knows : ∀ n p, s.procs n = some p → p.KnowsNames s.world

theorem inOrder_of_reach {G : Sys → SysEvent → Prop} (hG : ∀ s e, G s e → BumpsInOrder s e) {s : Sys}
    (h : (lifecycle cfg).Reach G s) : s.InOrder := by
  obtain ⟨hw, hk⟩ := (generations_outline cfg hG).outline.holds h
  exact ⟨hw, hk⟩

end Zedspaces.Lifecycle
