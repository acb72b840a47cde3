/-
The orphans of `gc`. A gc run reads the names the rows carry, then deletes expired workspaces, then lists
the sandboxes there are and deletes those whose name it has not read. A sandbox that a creation or a rebuild
makes in between is listed under a name the run does not know, and is deleted although its row names it
(`gc_deletes_named_sandbox`).

Nothing goes wrong while no run creates a sandbox that a row names and a gc run past its reading does not
know, and bumps are in order: a listed sandbox with an unknown name was then there before the reading, when
no row carried its name, and names do not come back.
-/
import Zedspaces.Lifecycle.Generations

namespace Zedspaces.Lifecycle

open Lib Lib.System

variable {cfg : Config} {w : World} {stmt : Stmt} {name : SandboxName}

/-- The names a gc run has read, until it lists the sandboxes. -/
def GcPc.known? : GcPc → Option (List SandboxName)
  | .delete _ names _ | .listOrphans names => some names
  | _ => none

/-- The orphans a gc run has still to delete. -/
def GcPc.orphans : GcPc → List SandboxName
  | .deleteOrphans orphans => orphans
  | _ => []

def Proc.known? : Proc → Option (List SandboxName)
  | .gc g => g.pc.known?
  | _ => none

/-- The sandbox the gc run `n` deletes with its next step. -/
def Sys.aboutToDeleteOrphan (s : Sys) (n : Pid) : Option SandboxName := match s.procs n with
  | some (.gc g) => g.pc.orphans.head?
  | _ => none

/-- A gc run that has read the names, and has not listed the sandboxes yet, knows the name. -/
def Sys.Knows (s : Sys) (name : SandboxName) : Prop :=
  ∀ n p, s.procs n = some p → ∀ known ∈ p.known?, name ∈ known

instance (s : Sys) (name : SandboxName) : Decidable (s.Knows name) :=
  inferInstanceAs (Decidable (∀ n p, s.procs n = some p → ∀ known ∈ p.known?, name ∈ known))

/-- A run creates a sandbox that a row names only under a name the gc runs know. -/
def CreatesKnown (s : Sys) (e : SysEvent) : Prop := match s.acting e with
  | some (.run ⟨_, _, _, .body (.create (.createSandbox _ input))⟩) =>
    s.world.sandboxes input.name = none → input.name ∈ knownSandboxNames s.world → s.Knows input.name
  | _ => True

/-- No sandbox gets its name behind the back of a gc run. -/
def NamesBeforeGc (s : Sys) (e : SysEvent) : Prop := BumpsInOrder s e ∧ CreatesKnown s e

instance (s : Sys) (e : SysEvent) : Decidable (CreatesKnown s e) := by
  unfold CreatesKnown
  generalize s.acting e = p
  rcases p with _ | ⟨_, _, _, ((_ | _) | _) | _⟩ | _ <;> infer_instance

instance (s : Sys) (e : SysEvent) : Decidable (NamesBeforeGc s e) := inferInstanceAs (Decidable (_ ∧ _))

/-- What a gc run knows: a sandbox with a name it has not read, and an orphan, has a dropped name. -/
def Proc.OrphansDropped (p : Proc) (w : World) : Prop := match p with
  | .gc g => (∀ known ∈ g.pc.known?, ∀ name ∉ known, w.sandboxes name ≠ none → w.Dropped name) ∧
      ∀ name ∈ g.pc.orphans, w.Dropped name
  | _ => True

/-- The statement creates no sandbox that a row names and a gc run does not know. -/
def CreatesNoOrphan (s : Sys) (stmt : Stmt) : Prop := stmt.Orderly s.world ∧
  ∀ name, stmt = .getOrCreate name → s.world.sandboxes name = none → s.world.Names name → s.Knows name

theorem Proc.OrphansDropped.exec {s : Sys} {n : Pid} {p : Proc} (hw : s.world.Generations) (hp : s.procs n = some p)
    (h : CreatesNoOrphan s stmt) (ho : p.OrphansDropped s.world) : p.OrphansDropped (stmt.exec cfg s.world) := by
  cases p with
  | gc g =>
    refine ⟨fun known hk name hname hsb => ?_, fun name hm => (ho.2 name hm).exec hw h.1⟩
    rcases Stmt.exec_sandboxes cfg hsb with hsb | rfl
    · exact (ho.1 known hk name hname hsb).exec hw h.1
    · by_cases hold : s.world.sandboxes name = none
      · refine World.Dropped.exec hw h.1 ⟨h.1, fun hnames => hname ?_⟩
        exact h.2 name rfl hold hnames n _ hp known hk
      · exact (ho.1 known hk name hname hold).exec hw h.1
  | _ => trivial

/-- A gc run that reads, lists or deletes keeps what it knows. -/
theorem GcPc.next_orphansDropped {now : Int} {g : Gc} {pc' : GcPc} {a : Answer} {st : Option Starts}
    (hw : w.Generations) (h : g.pc.next now a w = some (stmt, pc', st)) :
    (stmt = .nothing ∧ (Proc.OrphansDropped (.gc g) w → Proc.OrphansDropped (.gc ⟨now, pc'⟩) w)) ∨
      (pc'.known? = none ∧ ∀ name ∈ pc'.orphans, name ∈ g.pc.orphans) := by
  obtain ⟨now₀, pc⟩ := g
  revert h
  fun_cases GcPc.next now pc a w
  case case4 ids =>
    rintro ⟨⟩
    refine .inl ⟨rfl, fun _ => ⟨?_, by rintro name ⟨⟩⟩⟩
    rintro known ⟨⟩ name hname hsb
    exact ⟨hw.sandboxes name hsb, fun hn => hname ((mem_knownSandboxNames hw).2 hn)⟩
  case case5 names child => rintro ⟨⟩; exact .inl ⟨rfl, fun h => h⟩
  case case6 id queue names child =>
    intro h
    obtain ⟨d, hd, he⟩ := Option.map_eq_some_iff.1 h
    cases he
    refine .inl ⟨ChildPc.next_stmt hd, fun h => ?_⟩
    cases d.next with
    | goto c => exact h
    | returns => exact h
    | throws error => exact ⟨by rintro known ⟨⟩, by rintro name ⟨⟩⟩
  case case7 names listed =>
    rintro ⟨⟩
    refine .inl ⟨rfl, fun h => ⟨by rintro known ⟨⟩, fun name hm => ?_⟩⟩
    obtain ⟨-, hf⟩ := List.mem_filter.1 hm
    simp only [Bool.and_eq_true, decide_eq_true_eq, Option.any_eq_true] at hf
    obtain ⟨hname, sb, hsb, -⟩ := hf
    exact h.1 names rfl name hname (by rw [hsb]; exact Option.some_ne_none sb)
  case case9 name orphans how => rintro ⟨⟩; exact .inr ⟨rfl, fun _ hm => List.mem_cons_of_mem _ hm⟩
  all_goals
    rintro ⟨⟩ <;> exact .inr ⟨rfl, by rintro name ⟨⟩⟩

/-! ## Runs -/

theorem Proc.next_createsNoOrphan {s : Sys} {n : Pid} {a : Answer} {p p' : Proc} {st : Option Starts} (hs : s.InOrder)
    (hp : s.procs n = some p) (hg : NamesBeforeGc s (.act n a)) (h : p.next cfg n a s.world = some (stmt, p', st)) :
    CreatesNoOrphan s stmt := by
  refine ⟨(Proc.next_orderly hs.generations hp (hs.knows n p hp) hg.1 h).1, ?_⟩
  rintro name rfl hnone hnames
  obtain ⟨r, ws, input, rfl, hphase, rfl⟩ := Proc.next_getOrCreate h
  obtain ⟨id, inp, starter, phase⟩ := r
  cases hphase
  have hc := hg.2
  simp only [CreatesKnown, Sys.acting, hp] at hc
  exact hc hnone ((mem_knownSandboxNames hs.generations).2 hnames)

theorem orphans_outline (cfg : Config) : WorldOutline cfg (fun s e => s.InOrder ∧ NamesBeforeGc s e) CreatesNoOrphan
    World.Generations (fun p w => p.OrphansDropped w) where
  init := World.generations_empty
  whole s stmt hw h := hw.exec h.1
  each s stmt k q hw hp h ho := ho.exec hw hp h
  arrive := by
    intro s n i stmt p hw _ h
    refine ⟨⟨(Arrival.accept_orderly h).1, ?_⟩, ?_⟩
    · rintro name rfl
      rcases Arrival.accept_cases h with ⟨_, _, _, -, -, he, -⟩ | ⟨he, -⟩ <;> cases he
    · rcases Arrival.accept_cases h with
        ⟨_, _, _, -, -, -, rfl⟩ | ⟨-, ⟨_, _, -, rfl⟩ | ⟨_, rfl⟩ | ⟨_, rfl⟩ | rfl⟩
      all_goals first
        | trivial
        | exact ⟨by rintro known ⟨⟩, by rintro name ⟨⟩⟩
  act := by
    intro s n a p stmt p' st hw hg hp ho h
    refine ⟨Proc.next_createsNoOrphan hg.1 hp hg.2 h, fun ho' => ?_⟩
    cases p with
    | run r => obtain ⟨r', st', -, rfl, -⟩ := Proc.next_run h; trivial
    | call c => obtain ⟨pc, -, rfl⟩ := Proc.next_call h; trivial
    | request r => obtain ⟨pc, -, rfl⟩ := Proc.next_request h; trivial
    | reconcile r => obtain ⟨pc, -, rfl, -⟩ := Proc.next_reconcile h; trivial
    | gc g =>
      obtain ⟨pc, hgc, rfl⟩ := Proc.next_gc h
      rcases GcPc.next_orphansDropped hw hgc with ⟨rfl, hkeep⟩ | ⟨hknown, hsub⟩
      · exact hkeep ho
      · refine ⟨fun known hk => ?_, fun name hm => ho'.2 name (hsub name hm)⟩
        rw [hknown] at hk
        cases hk
  fresh _ _ _ _ := trivial
  ended _ _ := trivial
  env s e _ _ := ⟨e.stmt_orderly, fun name h => by cases e <;> cases h⟩

/-- A sandbox that gc deletes as an orphan is named by no undeleted row. -/
theorem gc_orphans_unnamed {s : Sys} {n : Pid} (h : (lifecycle cfg).Reach NamesBeforeGc s)
    (hd : s.aboutToDeleteOrphan n = some name) : ¬ s.world.Names name := by
  have hord : ∀ t, (lifecycle cfg).Reach NamesBeforeGc t → t.InOrder := fun t => inOrder_of_reach fun _ _ hg => hg.1
  have hs := (orphans_outline cfg).outline.holds (h.assume hord)
  unfold Sys.aboutToDeleteOrphan at hd
  split at hd
  · rename_i g hp
    exact ((hs.each n _ hp).2 name (List.mem_of_mem_head? hd)).2
  · cases hd

/-- A stopped workspace whose deletion the platform swallowed, and a gc run up to its listing. -/
def leavesOrphan : List SysEvent :=
  createsWorkspace 0 0 1 7 ++ stops 0 2 3 ++ [.arrive 4 (.start 0 (.deleteWorkspace false))] ++ startsRun 4 5 ++
    steps 5 2 ++ [.act 5 (.deletion .nothing)] ++ steps 5 3 ++ [.arrive 6 .gc] ++ steps 6 5

/-- The sandbox that outlived its workspace is deleted as an orphan, and named by no row. -/
theorem gc_orphans_unnamed_leftover : ∃ s : Sys, s.aboutToDeleteOrphan 6 = some (newSandboxName 0 1) ∧
    (s.world.sandboxes (newSandboxName 0 1)).isSome ∧ ¬ s.world.Names (newSandboxName 0 1) := by
  obtain ⟨s, hr, hd, hsb⟩ := exists_reach_of_execs (G := NamesBeforeGc)
    (fun s : Sys => s.aboutToDeleteOrphan 6 = some (newSandboxName 0 1) ∧
      (s.world.sandboxes (newSandboxName 0 1)).isSome)
    (leavesOrphan ++ [.act 6 (.listed [newSandboxName 0 1])]) (lifecycle_init deployment 0) (by decide) (by decide)
  exact ⟨s, hd, hsb, gc_orphans_unnamed hr hd⟩

/-- A workspace is created after a gc run has read the names and before it lists the sandboxes. -/
theorem gc_deletes_named_sandbox : ¬ ∀ (cfg : Config) (s : Sys) (n : Pid) (name : SandboxName),
    (lifecycle cfg).Reach System.free s → s.aboutToDeleteOrphan n = some name → ¬ s.world.Names name := by
  intro h
  obtain ⟨s, hr, hd, hn⟩ := exists_reach_of_exec
    (fun s : Sys => s.aboutToDeleteOrphan 4 = some (newSandboxName 0 1) ∧
      (s.world.rows 0).any (fun row => decide (row.deletedAt = none ∧ row.sandboxName = newSandboxName 0 1)) = true)
    ([.arrive 4 .gc] ++ steps 4 4 ++ createsWorkspace 0 0 1 7 ++ steps 4 1 ++
      [.act 4 (.listed [newSandboxName 0 1])]) (lifecycle_init deployment 0) (by decide)
  obtain ⟨row, hrow, hrow'⟩ := (Option.any_eq_true _ _).1 hn
  obtain ⟨hlive, hname⟩ := of_decide_eq_true hrow'
  exact h deployment s 4 _ hr hd ⟨0, row, hrow, hlive, .inl hname⟩

end Zedspaces.Lifecycle
