/-
The platform and the steps of `workflows/steps/sandbox-steps.ts` on it: getting, resuming, stopping
and deleting sandboxes, the supervisor that boots inside one and puts the project directory in
place, and rebuild archives. What the platform may decide on its own (a VM dying, a call failing, a
deletion that silently does nothing) is left to the event that performs the step.
-/
import Zedspaces.Lifecycle.DbSteps

namespace Zedspaces.Lifecycle

/-! ## VM sessions -/

/-- The sandbox after its VM session ends with status `st`; nothing changes when it is already over. -/
def Sandbox.endSession (st : EndedStatus) (sb : Sandbox) : Sandbox :=
  if sb.status.ended then sb else { sb with status := st, supervisor := none, healthy := false }

/-- The sandbox in the new VM session `vm`. -/
def Sandbox.startSession (cfg : Config) (now : Int) (vm : VmSession) (sb : Sandbox) : Sandbox :=
  { sb with
    status := .running, currentSessionId := vm, expiresAt := some (now + cfg.sessionTimeoutMs)
    supervisor := none, healthy := false }

/-- A sandbox nobody has started yet. -/
def Sandbox.new : Sandbox := ⟨.pending, 0, none, none, false, none, 0, none, false⟩

/-- The platform resumes the sandbox when it is asked to get it back. -/
def Sandbox.resumes (sb : Sandbox) : Bool := decide (sb.status ≠ .running ∧ sb.status ≠ .pending)

namespace World

/-- A VM session of the sandbox is going on. -/
def vmLive (w : World) (name : SandboxName) : Bool := (w.sandboxes name).any fun sb => !sb.status.ended

/-- Notes that a VM session of the sandbox ends now, when one is going on. -/
def noteVmEnd (name : SandboxName) (w : World) : History :=
  { w.hist with vmEndedAt :=
      if w.vmLive name then Function.update w.hist.vmEndedAt name.workspace (some w.now) else w.hist.vmEndedAt }

/-- The sandbox's VM session ends with status `st`. -/
def endSession (name : SandboxName) (st : EndedStatus) (w : World) : World :=
  { w with
    sandboxes := Function.update w.sandboxes name ((w.sandboxes name).map (·.endSession st))
    hist := w.noteVmEnd name }

/-- `api.get(name, { resume: true })`. -/
def resume (cfg : Config) (name : SandboxName) (w : World) : World :=
  { w with
    sandboxes := Function.update w.sandboxes name ((w.sandboxes name).map fun sb =>
      if sb.resumes then sb.startSession cfg w.now w.nextVm else sb)
    nextVm := if (w.sandboxes name).any (·.resumes) then w.nextVm + 1 else w.nextVm }

/-- `api.create`: gets the sandbox back, resumed, or creates it empty. -/
def getOrCreate (cfg : Config) (name : SandboxName) (w : World) : World :=
  let sb := (w.sandboxes name).getD .new
  { w with
    sandboxes := Function.update w.sandboxes name
      (some (if (w.sandboxes name).all (·.resumes) then sb.startSession cfg w.now w.nextVm else sb))
    nextVm := if (w.sandboxes name).all (·.resumes) then w.nextVm + 1 else w.nextVm }

/-- `handle.stop()` and `handle.delete()`. -/
def deleteSandbox (name : SandboxName) (w : World) : World :=
  { w with sandboxes := Function.update w.sandboxes name none, hist := w.noteVmEnd name }

end World

/-! ## Steps -/

/-- `hostsOf(handle)`. -/
def hostsOf (cfg : Config) (name : SandboxName) (sb : Sandbox) : SandboxSessionHosts :=
  let host port : Host := ⟨name, sb.currentSessionId, port⟩
  ⟨host cfg.rpcPort, host cfg.healthPort, cfg.proxySlots.map fun slot => (slot, host slot), sb.currentSessionId,
    sb.expiresAt⟩

/-- The hosts of a sandbox that was just created or resumed. -/
def hostsIn (cfg : Config) (name : SandboxName) (w : World) : SandboxSessionHosts :=
  hostsOf cfg name ((w.sandboxes name).getD .new)

/-- The row `startSupervisor` leaves, with a new bearer and the command id. -/
def Workspace.startSupervisor (now : Int) (cmdId : CmdId) (row : Workspace) : Workspace :=
  { row with
    sandboxTokenHash := some (row.sandboxTokenGeneration + 1)
    sandboxTokenGeneration := row.sandboxTokenGeneration + 1
    supervisorCmdId := some cmdId
    updatedAt := now }

/-- `startSupervisor`: rotates the sandbox bearer, starts `zs-agent` with it in the running VM and
persists the command id. -/
def startSupervisor (id : WsId) (name : SandboxName) (cmdId : CmdId) (w : World) : World :=
  let token := ((w.rows id).map fun row => row.sandboxTokenGeneration + 1).getD 0
  { w.updateRow id (.startSupervisor w.now cmdId) with
    sandboxes := Function.update w.sandboxes name ((w.sandboxes name).map fun sb => { sb with supervisor := some token }) }

/-- What `/health` answers, as far as the workflows look at it. `ready` folds the statuses `ready`
and `degraded`. -/
structure HealthProbe where
  ready : Bool
  stopping : Bool
  serverRunning : Bool
  phase : String
  build : Option String

/-- The row `stepProbeHealth` leaves: `boot:<phase>` while the row is not yet running. -/
def Workspace.noteBootPhase (now : Int) (probe : Option HealthProbe) (row : Workspace) : Workspace :=
  match probe with
  | some p =>
    if row.state = .running then row else { row with stateReason := some ("boot:" ++ p.phase), updatedAt := now }
  | none => row

/-- The write of `stepProbeHealth`. -/
def noteBootPhase (id : WsId) (probe : Option HealthProbe) (w : World) : World :=
  w.updateRow id (.noteBootPhase w.now probe)

/-- A probe may report a server only when the supervisor of that VM session is up. -/
def probeTruthful (w : World) (host : Host) : Option HealthProbe → Bool
  | some p => !p.serverRunning || (w.sandboxes host.sandbox).any fun sb =>
      sb.healthy && decide (sb.currentSessionId = host.session)
  | none => true

/-- `buildsCompatible`: exact match unless either side is a dev build. -/
def buildsCompatible (a b : Option String) : Bool :=
  match a, b with
  | some a, some b => decide (a = "") || decide (b = "") || decide (a = b) ||
      "dev".toList.isPrefixOf a.toList || "dev".toList.isPrefixOf b.toList
  | _, _ => true

/-- `stepStopSandbox` and `stepStopSandboxDiscard`: a missing sandbox, or one whose session is over,
is left alone. -/
def stepStopSandbox (name : SandboxName) (w : World) : World := w.endSession name .stopped

/-- What a deletion that never throws really did. -/
inductive Deletion where
  | deleted | onlyStopped | nothing
  deriving DecidableEq, Repr

/-- `stepDeleteSandbox`: platform errors are swallowed, so the sandbox may survive it. -/
def stepDeleteSandbox (name : SandboxName) : Deletion → World → World
  | .deleted, w => w.deleteSandbox name
  | .onlyStopped, w => w.endSession name .stopped
  | .nothing, w => w

/-- `stepStartArchive` on a sandbox that exists: resumes it and starts `tar`. The tarball holds the
files the sandbox has now. -/
def stepStartArchive (cfg : Config) (name : SandboxName) (w : World) : World :=
  let w := w.resume cfg name
  { w with sandboxes := Function.update w.sandboxes name ((w.sandboxes name).map fun sb =>
      { sb with archiveTmp := some sb.files, archiveCovers := w.hist.opened name }) }

/-- The tarball in the sandbox's `/tmp`. -/
def World.archiveTmp (w : World) (name : SandboxName) : Option (Option Files) :=
  (w.sandboxes name).bind (·.archiveTmp)

/-- `stepFinishArchive` on a sandbox that has a tarball: resumes it and stores the tarball, under the
pathname `nextBlob`. -/
def stepFinishArchive (cfg : Config) (name : SandboxName) (w : World) : World :=
  let w := w.resume cfg name
  let covers := ((w.sandboxes name).map (·.archiveCovers)).getD 0
  { w with
    blobs := Function.update w.blobs w.nextBlob (w.archiveTmp name)
    nextBlob := w.nextBlob + 1
    hist := { w.hist with archived := Function.update w.hist.archived name covers } }

def stepDeleteBlob (pathname : BlobPath) (w : World) : World :=
  { w with blobs := Function.update w.blobs pathname none }

/-- `stepListOrphanSandboxes`: the listed sandboxes that are not known, except those being
snapshotted. `listed` is what the platform lists. -/
def stepListOrphanSandboxes (known listed : List SandboxName) (w : World) : List SandboxName :=
  listed.filter fun name => decide (name ∉ known) &&
    (w.sandboxes name).any fun sb => decide (sb.status ≠ .snapshotting)

/-! ## The supervisor -/

/-- `restoreBlock`: the archive a boot restores from. -/
def restoreBlock (row : Workspace) : Option BlobPath :=
  if row.restoreKind = .tarball then row.restoreBlobPathname else none

/-- The sandbox after the supervisor of its running VM boots: it fetches its manifest with its bearer,
puts the project directory in place on the first boot (from the archive the manifest names, else as the
fresh checkout `checkout`) and its server comes up. `none` when it cannot. -/
def World.booted (w : World) (name : SandboxName) (checkout : Files) : Option Sandbox := do
  let sb ← w.sandboxes name
  let token ← sb.supervisor
  let row ← w.liveRow name.workspace
  if sb.status = .running ∧ row.sandboxName = name ∧ row.sandboxTokenHash = some token then
    let files ← if sb.cloneDone then some sb.files else match restoreBlock row with
      | some blob => w.blobs blob
      | none => some (some checkout)
    some { sb with files, cloneDone := true, healthy := true }
  else none

/-- A boot, when it can. -/
def boot (name : SandboxName) (checkout : Files) (w : World) : World :=
  let healthy := (w.booted name checkout).isSome || w.hist.everHealthy name
  { w with
    sandboxes := Function.update w.sandboxes name ((w.booted name checkout).or (w.sandboxes name))
    hist := { w.hist with everHealthy := Function.update w.hist.everHealthy name healthy } }

/-- What a boot does with the sandbox: the running VM of the row's current generation gets its project directory, which
it has already or takes from the archive the row names. -/
structure World.Boots (w : World) (name : SandboxName) (checkout : Files) (row : Workspace) (sb sb' : Sandbox) : Prop where
  sandbox : w.sandboxes name = some sb
  liveRow : w.liveRow name.workspace = some row
  running : sb.status = .running
  current : row.sandboxName = name
  kept : sb.cloneDone = true → sb'.files = sb.files
  restored : sb.cloneDone = false → ∀ blob, restoreBlock row = some blob → w.blobs blob = some sb'.files
  eq : sb' = { sb with files := sb'.files, cloneDone := true, healthy := true }

theorem World.boots_of_booted {w : World} {name : SandboxName} {checkout : Files} {sb' : Sandbox}
    (h : w.booted name checkout = some sb') : ∃ row sb, w.Boots name checkout row sb sb' := by
  unfold World.booted at h
  obtain ⟨sb, hsb, h⟩ := Option.bind_eq_some_iff.1 h
  obtain ⟨token, -, h⟩ := Option.bind_eq_some_iff.1 h
  obtain ⟨row, hrow, h⟩ := Option.bind_eq_some_iff.1 h
  split at h
  · next hboot =>
    refine ⟨row, sb, ?_⟩
    dsimp only at h
    split at h
    · next hdone =>
      cases h
      exact ⟨hsb, hrow, hboot.1, hboot.2.1, fun _ => rfl, fun hnot => absurd hdone (by simp [hnot]), rfl⟩
    · next hdone =>
      split at h
      · next blob hblob =>
        obtain ⟨files, hfiles, h⟩ := Option.bind_eq_some_iff.1 h
        cases h
        refine ⟨hsb, hrow, hboot.1, hboot.2.1, fun hyes => absurd hyes hdone, fun _ b hb => ?_, rfl⟩
        cases hblob.symm.trans hb
        exact hfiles
      · next hnone =>
        cases h
        refine ⟨hsb, hrow, hboot.1, hboot.2.1, fun hyes => absurd hyes hdone, fun _ b hb => ?_, rfl⟩
        cases hnone.symm.trans hb
  · cases h

end Zedspaces.Lifecycle
