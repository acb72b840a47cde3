/-
The commands of a boot (`spawn_lifecycle`): the dotfiles once for each repository, the post-create stages once for each
devcontainer, `postStartCommand` every time. What was done is read off the markers on the disk, which a crash, a stop or
a full disk may leave behind what was done, and never ahead of it: a marker is written when the whole sequence has
succeeded (`Allowed`), so over any run of boots, crashes and devcontainers a finished sequence runs again only after
another one has finished (`post_create_once`).
-/
import Zedspaces.Lib.Crash
import Zedspaces.Lib.Text

namespace Zedspaces.Supervisor.BootCommands

open Lib

inductive LifecycleCommandLeaf where
  | shell (script : Text)
  | argv (args : List Text)

/-- The entries of the object form stand in the order of their names. -/
inductive LifecycleCommand where
  | shell (script : Text)
  | argv (args : List Text)
  | parallel (entries : List (Text × LifecycleCommandLeaf))

/-- `DevcontainerConfig`, what the boot runs of it. -/
structure DevcontainerCommands where
  onCreateCommand : Option LifecycleCommand
  updateContentCommand : Option LifecycleCommand
  postCreateCommand : Option LifecycleCommand
  postStartCommand : Option LifecycleCommand

structure CommandSpec where
  argv : List Text
  shell : Bool
  label : Text

def shellSpec (script label : Text) : Option CommandSpec :=
  if Text.trim script = [] then none else some ⟨["bash".toList, "-lc".toList, script], true, label⟩

def argvSpec (argv : List Text) (label : Text) : Option CommandSpec :=
  if argv = [] then none else some ⟨argv, false, label⟩

def lifecycleSpecs (command : LifecycleCommand) (label : Text) : List CommandSpec :=
  match command with
  | .shell script => (shellSpec script label).toList
  | .argv argv => (argvSpec argv label).toList
  | .parallel entries => entries.filterMap fun
    | (name, .shell script) => shellSpec script (label ++ ':' :: name)
    | (name, .argv argv) => argvSpec argv (label ++ ':' :: name)

abbrev Stage := Text × List CommandSpec

def postCreateStages (config : DevcontainerCommands) : List Stage :=
  [("on_create".toList, config.onCreateCommand), ("update_content".toList, config.updateContentCommand),
    ("post_create".toList, config.postCreateCommand)].filterMap fun (label, command) =>
      command.bind fun command =>
        let specs := lifecycleSpecs command label
        if specs = [] then none else some (label, specs)

/-- What a boot was given: the repository of the dotfiles, the devcontainer and its marker. -/
structure Plan where
  dotfiles : Option Text
  devcontainer : Option DevcontainerCommands
  devcontainerMarker : Option Text

def Plan.marker (plan : Plan) : Text := plan.devcontainerMarker.getD "none".toList

def Plan.stages (plan : Plan) : List Stage := (plan.devcontainer.map postCreateStages).getD []

/-! ## The markers and what was done -/

inductive MarkerName where
  | postCreate
  | dotfiles
  deriving DecidableEq

/-- What a marker vouches for. -/
inductive Record where
  | dotfiles (repoUrl : Text)
  | postCreate (plan : Plan)

def Record.name : Record → MarkerName
  | .dotfiles _ => .dotfiles
  | .postCreate _ => .postCreate

/-- What is written into it. -/
def Record.contents : Record → Text
  | .dotfiles repoUrl => repoUrl
  | .postCreate plan => plan.marker

inductive Work where
  | dotfiles (repoUrl : Text)
  | stage (plan : Plan) (k : Nat)
  | postStart (plan : Plan)

/-- How many commands run side by side. -/
def Work.width : Work → Nat
  | .dotfiles _ => 1
  | .stage plan k => ((plan.stages[k]?).map fun stage => stage.2.length).getD 0
  | .postStart plan => ((plan.devcontainer.bind DevcontainerCommands.postStartCommand).map fun command =>
    (lifecycleSpecs command "post_start".toList).length).getD 0

inductive Effect where
  | started (work : Work)
  | finished (work : Work)
  | failed (work : Work)
  | recorded (r : Record)

/-- The markers by their files, each with its temporary one, and what was done so far. -/
structure Disk where
  markers : MarkerName → Option Text
  tmp : MarkerName → Option Text
  log : List Effect

/-- `Markers::read` -/
def Disk.read (d : Disk) (name : MarkerName) : Option Text := (d.markers name).map Text.trim

def Disk.note (d : Disk) (e : Effect) : Disk := { d with log := d.log ++ [e] }

def Disk.needsPostCreate (d : Disk) (marker : Text) : Bool := d.read .postCreate ≠ some marker

def Disk.dotfilesInstalled (d : Disk) (repoUrl : Text) : Bool := d.read .dotfiles = some repoUrl

/-! ## What the task has done -/

inductive Op where
  | start (work : Work)
  | join (work : Work)
  | setMarker (r : Record)
  | elapsed
  | isCancelled

inductive Reply where
  | ok
  | failed
  | elapsed (ms : Nat)
  | cancelled

/-- What the world adds to a step; `exits` are the commands' outcomes, one for each. -/
inductive Outcome where
  | done
  | fail
  | exits (succeeded : List Bool)
  | truncate
  | write (contents : Text)
  | time (ms : Nat)
  | cancelled

/-- One step of an operation. A marker is written to a temporary file, which then takes its place. -/
def device : Prog.Device Op Disk Reply Outcome
  | .start work, .done, d => some (d.note (.started work), some .ok)
  | .join work, .exits succeeded, d =>
    if succeeded.length = work.width then
      if succeeded.all id then some (d.note (.finished work), some .ok) else some (d.note (.failed work), some .failed)
    else none
  | .join work, .fail, d => some (d.note (.failed work), some .failed)
  | .setMarker r, .truncate, d => some ({ d with tmp := Function.update d.tmp r.name (some []) }, none)
  | .setMarker r, .write contents, d =>
    if contents <+: r.contents ∧ d.tmp r.name ≠ none then
      some ({ d with tmp := Function.update d.tmp r.name (some contents) }, none)
    else none
  | .setMarker r, .done, d =>
    if d.tmp r.name = some r.contents then
      some ({ d with
        markers := Function.update d.markers r.name (some r.contents)
        tmp := Function.update d.tmp r.name none
        log := d.log ++ [.recorded r] }, some .ok)
    else none
  | .setMarker _, .fail, d => some (d, some .failed)
  | .elapsed, .time ms, d => some (d, some (.elapsed ms))
  | .isCancelled, .done, d => some (d, some .ok)
  | .isCancelled, .cancelled, d => some (d, some .cancelled)
  | _, _, _ => none

abbrev Task := Prog Op Disk Reply

/-- `POST_CREATE_TIMEOUT`, which the stages share. -/
def postCreateTimeoutMs : Nat := 30 * 60 * 1000

/-- The commands of one kind, to their end. -/
def runWork (work : Work) : Task Bool := do
  let _ ← Prog.perform (.start work)
  match ← Prog.perform (.join work) with
  | .ok => pure true
  | _ => pure false

/-- `run_lifecycle_sequence`: the first failing stage ends it. -/
def runSequence (plan : Plan) : Nat → List Stage → Task Bool
  | _, [] => pure true
  | k, _ :: rest => do
    match ← Prog.perform .elapsed with
    | .elapsed ms =>
      if postCreateTimeoutMs - ms = 0 then pure false
      else if ← runWork (.stage plan k) then runSequence plan (k + 1) rest else pure false
    | _ => pure false

def setMarker (r : Record) : Task Unit := do
  let _ ← Prog.perform (.setMarker r)
  pure ()

def installDotfilesOnce (repoUrl : Text) : Task Unit := do
  if ← Prog.inspect fun d => d.dotfilesInstalled repoUrl then pure ()
  else if ← runWork (.dotfiles repoUrl) then setMarker (.dotfiles repoUrl)
  else pure ()

def postCreate (plan : Plan) : Task Unit := do
  if ← Prog.inspect fun d => d.needsPostCreate plan.marker then
    if plan.stages = [] then setMarker (.postCreate plan)
    else if ← runSequence plan 0 plan.stages then setMarker (.postCreate plan)
    else pure ()
  else pure ()

def postStart (plan : Plan) : Task Unit :=
  match plan.devcontainer.bind DevcontainerCommands.postStartCommand with
  | some _ => do
    let _ ← runWork (.postStart plan)
    pure ()
  | none => pure ()

/-- Goes on unless a stop was asked for. -/
def unlessCancelled (next : Task Unit) : Task Unit := do
  match ← Prog.perform .isCancelled with
  | .ok => next
  | _ => pure ()

/-- The task of `spawn_lifecycle`. -/
def lifecycle (plan : Plan) : Task Unit := do
  match plan.dotfiles with
  | some repoUrl => installDotfilesOnce repoUrl
  | none => pure ()
  unlessCancelled do
    postCreate plan
    unlessCancelled (postStart plan)

/-- Boots of any plans, each of which may be cut off. -/
def boots : Host.Setup Plan Op Disk Reply Outcome Unit Unit where
  device := device
  admits _ := true
  program := lifecycle
  edit _ _ := none

/-- A sandbox whose disk is new. -/
def system : System (Host Plan Op Disk Reply Unit) (Host.Event Plan Outcome Unit) :=
  Host.system boots fun d => d = ⟨fun _ => none, fun _ => none, []⟩

/-! ## What may follow what -/

/-- The record the marker holds, the last one written. -/
def lastRecord (name : MarkerName) (log : List Effect) : Option Text :=
  log.foldl (fun last e => match e with
    | .recorded r => if r.name = name then some r.contents else last
    | _ => last) none

/-- The first `n` stages of the plan, each run to its end. -/
def sequence (plan : Plan) : Nat → List Effect
  | 0 => []
  | n + 1 => sequence plan n ++ [.started (.stage plan n), .finished (.stage plan n)]

/-- When a thing may be done, by what was done before. -/
def Allowed (before : List Effect) : Effect → Prop
  | .started (.stage plan k) => (lastRecord .postCreate before).map Text.trim ≠ some plan.marker ∧
      k < plan.stages.length ∧ sequence plan k <:+ before
  | .started (.dotfiles repoUrl) => (lastRecord .dotfiles before).map Text.trim ≠ some repoUrl
  | .started (.postStart _) => True
  | .finished work | .failed work => [.started work] <:+ before
  | .recorded (.postCreate plan) => sequence plan plan.stages.length <:+ before
  | .recorded (.dotfiles repoUrl) => [.started (.dotfiles repoUrl), .finished (.dotfiles repoUrl)] <:+ before

def Chronicle (log : List Effect) : Prop := ∀ before e after, log = before ++ e :: after → Allowed before e

/-- The markers are those last recorded, and everything was done when it might be. -/
structure Kept (d : Disk) : Prop where
  markers : ∀ name, d.markers name = lastRecord name d.log
  chronicle : Chronicle d.log

section
variable {d : Disk} {log : List Effect} {e : Effect} {plan : Plan} {work : Work} {r : Record}

theorem lastRecord_concat (name : MarkerName) : lastRecord name (log ++ [e]) = match e with
    | .recorded r => if r.name = name then some r.contents else lastRecord name log
    | _ => lastRecord name log := by
  rw [lastRecord, List.foldl_append]
  cases e <;> rfl

theorem Chronicle.concat (h : Chronicle log) (he : Allowed log e) : Chronicle (log ++ [e]) := by
  intro before e' after heq
  rcases List.eq_nil_or_concat after with rfl | ⟨after, last, rfl⟩
  · obtain ⟨rfl, hlast⟩ := List.append_inj' heq rfl
    cases hlast
    exact he
  · rw [List.concat_eq_append, ← List.cons_append, ← List.append_assoc] at heq
    obtain ⟨rfl, -⟩ := List.append_inj' heq rfl
    exact h before e' after rfl

/-- Anything but a record leaves the markers as they are. -/
theorem Kept.note (h : Kept d) (he : Allowed d.log e) (hnot : ∀ r, e ≠ .recorded r) : Kept (d.note e) where
  markers name := by
    refine (h.markers name).trans ?_
    show _ = lastRecord name (d.log ++ [e])
    rw [lastRecord_concat]
    cases e with
    | recorded r => exact absurd rfl (hnot r)
    | _ => rfl
  chronicle := h.chronicle.concat he

theorem Kept.record (h : Kept d) (hr : Allowed d.log (.recorded r)) (tmp : MarkerName → Option Text) :
    Kept ⟨Function.update d.markers r.name (some r.contents), tmp, d.log ++ [.recorded r]⟩ where
  markers name := by
    show Function.update d.markers r.name (some r.contents) name = _
    rw [lastRecord_concat]
    by_cases hname : r.name = name
    · subst hname
      simp
    · rw [Function.update_of_ne (Ne.symm hname)]
      exact (h.markers name).trans (if_neg hname).symm
  chronicle := h.chronicle.concat hr

/-! ## Each part of the task -/

/-- Every step leaves a disk that is kept. -/
abbrev Keeps (_ : Op) (_ d' : Disk) : Prop := Kept d'

theorem meets_runWork (h : Kept d) (hstart : Allowed d.log (.started work)) :
    Prog.Meets device Keeps (runWork work) (fun succeeded c => Kept c ∧
      (∀ name, lastRecord name c.log = lastRecord name d.log) ∧
      (succeeded = true → c.log = d.log ++ [.started work, .finished work])) d := by
  have hstarted : Kept (d.note (.started work)) := h.note hstart fun _ => Effect.noConfusion
  have hend (e : Effect) (he : e = .finished work ∨ e = .failed work) : Kept ((d.note (.started work)).note e) := by
    rcases he with rfl | rfl
    · exact hstarted.note (List.suffix_append _ _) fun _ => Effect.noConfusion
    · exact hstarted.note (List.suffix_append _ _) fun _ => Effect.noConfusion
  have hlast (e : Effect) (he : e = .finished work ∨ e = .failed work) (name : MarkerName) :
      lastRecord name ((d.note (.started work)).note e).log = lastRecord name d.log := by
    show lastRecord name ((d.log ++ [.started work]) ++ [e]) = _
    rcases he with rfl | rfl <;> rw [lastRecord_concat, lastRecord_concat]
  refine Prog.meets_bind (Prog.meets_perform (· = d) rfl ?_)
  rintro c w c' o rfl hs
  cases w with
  | done =>
    cases hs
    refine ⟨hstarted, by rintro ⟨⟩, ?_⟩
    rintro _ ⟨⟩
    refine Prog.meets_bind (Prog.meets_perform (· = c.note (.started work)) rfl ?_)
    rintro c₁ w c' o rfl hs
    cases w with
    | exits succeeded =>
      obtain ⟨-, hs⟩ := Option.ite_none_right_eq_some.1 hs
      split at hs
      · cases hs
        refine ⟨hend _ (.inl rfl), by rintro ⟨⟩, ?_⟩
        rintro _ ⟨⟩
        exact ⟨hend _ (.inl rfl), hlast _ (.inl rfl), fun _ => List.append_assoc ..⟩
      · cases hs
        refine ⟨hend _ (.inr rfl), by rintro ⟨⟩, ?_⟩
        rintro _ ⟨⟩
        exact ⟨hend _ (.inr rfl), hlast _ (.inr rfl), by rintro ⟨⟩⟩
    | fail =>
      cases hs
      refine ⟨hend _ (.inr rfl), by rintro ⟨⟩, ?_⟩
      rintro _ ⟨⟩
      exact ⟨hend _ (.inr rfl), hlast _ (.inr rfl), by rintro ⟨⟩⟩
    | _ => cases hs
  | _ => cases hs

theorem meets_setMarker (h : Kept d) (hr : Allowed d.log (.recorded r)) :
    Prog.Meets device Keeps (setMarker r) (fun _ c => Kept c) d := by
  -- until the rename, the markers and the log are those of before
  refine Prog.meets_bind (Prog.meets_perform (fun c => c.markers = d.markers ∧ c.log = d.log) ⟨rfl, rfl⟩ ?_)
  rintro c w c' o ⟨hmarkers, hlog⟩ hs
  have hc : Kept c := ⟨fun name => by rw [hmarkers, hlog]; exact h.markers name, hlog ▸ h.chronicle⟩
  cases w with
  | done =>
    obtain ⟨-, hs⟩ := Option.ite_none_right_eq_some.1 hs
    cases hs
    have hdone := hc.record (r := r) (hlog ▸ hr) (Function.update c.tmp r.name none)
    refine ⟨hdone, by rintro ⟨⟩, ?_⟩
    rintro _ ⟨⟩
    exact hdone
  | fail =>
    cases hs
    refine ⟨hc, by rintro ⟨⟩, ?_⟩
    rintro _ ⟨⟩
    exact hc
  | truncate =>
    cases hs
    exact ⟨⟨hc.markers, hc.chronicle⟩, fun _ => ⟨hmarkers, hlog⟩, by rintro _ ⟨⟩⟩
  | write contents =>
    obtain ⟨-, hs⟩ := Option.ite_none_right_eq_some.1 hs
    cases hs
    exact ⟨⟨hc.markers, hc.chronicle⟩, fun _ => ⟨hmarkers, hlog⟩, by rintro _ ⟨⟩⟩
  | _ => cases hs

/-- From stage `k` on: each starts behind the ones before it, and all that are left end well or the sequence fails. -/
theorem meets_runSequence (rest : List Stage) : ∀ {k : Nat} {d : Disk}, Kept d → k + rest.length = plan.stages.length →
    (lastRecord .postCreate d.log).map Text.trim ≠ some plan.marker → sequence plan k <:+ d.log →
    Prog.Meets device Keeps (runSequence plan k rest)
      (fun succeeded c => Kept c ∧ (succeeded = true → sequence plan plan.stages.length <:+ c.log)) d := by
  induction rest with
  | nil =>
    intro k d h hk _ hseq
    exact ⟨h, fun _ => hk ▸ hseq⟩
  | cons stage rest ih =>
    intro k d h hk hneeds hseq
    have hlt : k < plan.stages.length := by
      simp only [List.length_cons] at hk
      omega
    refine Prog.meets_bind (Prog.meets_perform (· = d) rfl ?_)
    rintro c w c' o rfl hs
    cases w with
    | time ms =>
      cases hs
      refine ⟨h, by rintro ⟨⟩, ?_⟩
      rintro _ ⟨⟩
      dsimp only
      split
      · exact ⟨h, by rintro ⟨⟩⟩
      · refine Prog.meets_bind (Prog.meets_mono ?_ (meets_runWork h ⟨hneeds, hlt, hseq⟩))
        rintro succeeded c' ⟨hc', hlast, hlog⟩
        split
        · next hsucceeded =>
          refine ih hc' (by simp only [List.length_cons] at hk; omega) (by rw [hlast]; exact hneeds) ?_
          rw [hlog hsucceeded]
          obtain ⟨before, hbefore⟩ := hseq
          exact ⟨before, by rw [sequence, ← hbefore, List.append_assoc]⟩
        · exact ⟨hc', by rintro ⟨⟩⟩
    | _ => cases hs

theorem meets_postCreate (h : Kept d) : Prog.Meets device Keeps (postCreate plan) (fun _ c => Kept c) d := by
  show Prog.Meets device Keeps (if d.needsPostCreate plan.marker = true then _ else _) _ d
  split
  · next hneeds =>
    have hneeds : (lastRecord .postCreate d.log).map Text.trim ≠ some plan.marker := by
      rw [← h.markers]
      exact of_decide_eq_true hneeds
    split
    · next hnone =>
      refine meets_setMarker h ?_
      show sequence plan plan.stages.length <:+ d.log
      rw [hnone]
      exact List.nil_suffix
    · refine Prog.meets_bind (Prog.meets_mono ?_
        (meets_runSequence plan.stages h (Nat.zero_add _) hneeds List.nil_suffix))
      rintro succeeded c ⟨hc, hdone⟩
      split
      · next hsucceeded => exact meets_setMarker hc (hdone hsucceeded)
      · exact hc
  · exact h

theorem meets_installDotfilesOnce (repoUrl : Text) (h : Kept d) :
    Prog.Meets device Keeps (installDotfilesOnce repoUrl) (fun _ c => Kept c) d := by
  show Prog.Meets device Keeps (if d.dotfilesInstalled repoUrl = true then _ else _) _ d
  split
  · exact h
  · next hnot =>
    refine Prog.meets_bind (Prog.meets_mono ?_ (meets_runWork h ?_))
    · rintro succeeded c ⟨hc, -, hlog⟩
      split
      · next hsucceeded =>
        refine meets_setMarker hc ?_
        rw [hlog hsucceeded]
        exact List.suffix_append _ _
      · exact hc
    · show (lastRecord .dotfiles d.log).map Text.trim ≠ some repoUrl
      rw [← h.markers]
      exact fun heq => hnot (decide_eq_true heq)

theorem meets_unlessCancelled {next : Task Unit} (h : Kept d)
    (hnext : Prog.Meets device Keeps next (fun _ c => Kept c) d) :
    Prog.Meets device Keeps (unlessCancelled next) (fun _ c => Kept c) d := by
  refine Prog.meets_bind (Prog.meets_perform (· = d) rfl ?_)
  rintro c w c' o rfl hs
  cases w with
  | done =>
    cases hs
    refine ⟨h, by rintro ⟨⟩, ?_⟩
    rintro _ ⟨⟩
    exact hnext
  | cancelled =>
    cases hs
    refine ⟨h, by rintro ⟨⟩, ?_⟩
    rintro _ ⟨⟩
    exact h
  | _ => cases hs

theorem meets_postStart (h : Kept d) : Prog.Meets device Keeps (postStart plan) (fun _ c => Kept c) d := by
  unfold postStart
  split
  · refine Prog.meets_bind (Prog.meets_mono ?_ (meets_runWork h trivial))
    exact fun _ _ hc => hc.1
  · exact h

theorem meets_lifecycle (h : Kept d) : Prog.Meets device Keeps (lifecycle plan) (fun _ c => Kept c) d := by
  have hrest {c : Disk} (hc : Kept c) : Prog.Meets device Keeps
      (unlessCancelled (postCreate plan >>= fun _ => unlessCancelled (postStart plan))) (fun _ c => Kept c) c := by
    refine meets_unlessCancelled hc (Prog.meets_bind (Prog.meets_mono ?_ (meets_postCreate hc)))
    exact fun _ _ hc' => meets_unlessCancelled hc' (meets_postStart hc')
  unfold lifecycle
  split
  · next repoUrl _ =>
    refine Prog.meets_bind (Prog.meets_mono ?_ (meets_installDotfilesOnce repoUrl h))
    exact fun _ _ hc => hrest hc
  · exact hrest h

end

/-! ## Every run -/

section
variable {s : Host Plan Op Disk Reply Unit}

theorem kept (h : system.Reach System.free s) : Kept s.disk := by
  refine Host.kept ?_ ?_ ?_ h
  · rintro _ rfl
    refine ⟨fun _ => rfl, fun before e after heq => ?_⟩
    simp at heq
  · exact fun plan d _ hd => Prog.meets_mono (fun _ _ _ => trivial) (meets_lifecycle hd)
  · rintro e d d' _ ⟨⟩

/-- The marker holds the record at hand, or a later one. -/
theorem lastRecord_after {r : Record} {name : MarkerName} (hname : r.name = name) (before between : List Effect) :
    ∃ r', (r' = r ∨ .recorded r' ∈ between) ∧ r'.name = name ∧
      lastRecord name (before ++ .recorded r :: between) = some r'.contents := by
  induction between using List.reverseRecOn with
  | nil =>
    refine ⟨r, .inl rfl, hname, ?_⟩
    rw [lastRecord_concat]
    exact if_pos hname
  | append_singleton between e ih =>
    obtain ⟨r', hr', hname', hlast⟩ := ih
    have hold (he : lastRecord name (before ++ .recorded r :: (between ++ [e])) = some r'.contents) :
        ∃ r', (r' = r ∨ .recorded r' ∈ between ++ [e]) ∧ r'.name = name ∧
          lastRecord name (before ++ .recorded r :: (between ++ [e])) = some r'.contents :=
      ⟨r', hr'.imp_right (List.mem_append_left _), hname', he⟩
    rw [← List.cons_append, ← List.append_assoc, lastRecord_concat] at hold ⊢
    cases e with
    | recorded q =>
      by_cases hq : q.name = name
      · exact ⟨q, .inr (by simp), hq, if_pos hq⟩
      · exact hold ((if_neg hq).trans hlast)
    | _ => exact hold hlast

/-- A marker is written only behind the whole of what it vouches for, one stage after the other; and what a marker
vouches for is started again only after the marker was written for something else. -/
theorem post_create_once (h : system.Reach System.free s) : Chronicle s.disk.log ∧
    (∀ before plan between plan' k after,
      s.disk.log = before ++ .recorded (.postCreate plan) :: between ++ .started (.stage plan' k) :: after →
      Text.trim plan.marker = plan'.marker →
      ∃ plan'', .recorded (.postCreate plan'') ∈ between ∧ Text.trim plan''.marker ≠ plan'.marker) ∧
    ∀ before url between url' after,
      s.disk.log = before ++ .recorded (.dotfiles url) :: between ++ .started (.dotfiles url') :: after →
      Text.trim url = url' → ∃ url'', .recorded (.dotfiles url'') ∈ between ∧ Text.trim url'' ≠ url' := by
  have hk := kept h
  refine ⟨hk.chronicle, ?_, ?_⟩
  · intro before plan between plan' k after heq hsame
    obtain ⟨hneeds, -⟩ := hk.chronicle _ _ _ heq
    have hown : (Record.postCreate plan).name = .postCreate := rfl
    obtain ⟨r, hr, hname, hlast⟩ := lastRecord_after hown before between
    rw [hlast] at hneeds
    rcases hr with rfl | hmem
    · exact absurd (congrArg some hsame) hneeds
    · cases r with
      | dotfiles url => cases hname
      | postCreate plan'' => exact ⟨plan'', hmem, fun heq => hneeds (congrArg some heq)⟩
  · intro before url between url' after heq hsame
    have hneeds := hk.chronicle _ _ _ heq
    have hown : (Record.dotfiles url).name = .dotfiles := rfl
    obtain ⟨r, hr, hname, hlast⟩ := lastRecord_after hown before between
    rw [Allowed, hlast] at hneeds
    rcases hr with rfl | hmem
    · exact absurd (congrArg some hsame) hneeds
    · cases r with
      | dotfiles url'' => exact ⟨url'', hmem, fun heq => hneeds (congrArg some heq)⟩
      | postCreate plan => cases hname

/-- A stage that is killed by a crash, and a second boot that runs it to its end. -/
def crashedThenDone : List (Host.Event Plan Outcome Unit) :=
  let plan : Plan := ⟨none, some ⟨none, none, some (.argv [['x']]), none⟩, some ['m']⟩
  [.boot plan, .op .done, .read, .op (.time 0), .op .done, .crash, .boot plan, .op .done, .read, .op (.time 0),
    .op .done, .op (.exits [true]), .op .truncate, .op (.write ['m']), .op .done, .op .done]

theorem post_create_once_crashed : ∃ s, system.Reach System.free s ∧ s.disk.markers .postCreate = some ['m'] ∧
    s.disk.log.length = 4 ∧ Chronicle s.disk.log := by
  have hinit : system.init ⟨⟨fun _ => none, fun _ => none, []⟩, none⟩ := ⟨rfl, rfl⟩
  have hreach := System.reach_of_exec hinit (rfl : system.exec _ crashedThenDone = some _)
  exact ⟨_, hreach, rfl, rfl, (post_create_once hreach).1⟩

end

end Zedspaces.Supervisor.BootCommands
