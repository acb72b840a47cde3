/-
The rolling platform timeout. The sweep decides how long a VM may run on, asks the backend for the difference to the
deadline it sees, and stores the deadline it wanted. The SDK and the local backend add what they are asked for to the
VM's deadline; the Docker backend counts it from its own clock. So the stored deadline is the VM's except where the
Docker backend extends (`extendTimeout_keeps_agreement`), whose VM is left an earlier one
(`docker_deadline_left_behind`).
-/
import Zedspaces.Lib.System
import Zedspaces.Web.Env

namespace Zedspaces.Web

open Lib Lib.System

/-- How close the platform timeout must be before the sweep extends it. -/
def extendHorizonMs : Int := 12600000

def extendMinGainMs : Int := 30 * 60000

/-- The columns that `extendTimeout` reads and writes. -/
structure TimeoutRow where
  sessionStartedAt : Option Int
  sandboxExpiresAt : Option Int
  deriving DecidableEq, Repr

/-- A sandbox: whether it runs, the deadline that ends its session, and, of a Docker container, when it was started
and the timeout of its label. -/
structure Vm where
  running : Bool
  expiresAt : Option Int
  startedAt : Int
  timeoutMs : Int
  deriving DecidableEq, Repr

/-- What the platform makes of a deadline on `sandbox.extendTimeout(ms)`. -/
structure Platform where
  extendTimeout : Option Int → Int → Option Int

/-- The documented behaviour: the timeout is extended by the duration. -/
def Platform.Extends (p : Platform) : Prop := ∀ t ms, p.extendTimeout (some t) ms = some (t + ms)

/-- What a sweep meets besides the row: whether the container's deadline file can be read, and how long after its
start the sweep comes to the call. -/
structure SweepCall where
  readOk : Bool
  elapsed : Nat

/-- `handle.expiresAt`; the Docker backend reads the deadline file, and without it says what the label says. -/
def Vm.peekExpiresAt (backend : Backend) (vm : Vm) (readOk : Bool) : Option Int :=
  match backend with
  | .docker =>
    if vm.running then
      some (((if readOk then vm.expiresAt else none).filter (0 < ·)).getD (vm.startedAt + vm.timeoutMs))
    else none
  | _ => vm.expiresAt

/-- `handle.extendTimeout(ms)` at `clock`. -/
def Vm.extendTimeout (backend : Backend) (p : Platform) (vm : Vm) (ms clock : Int) : Vm :=
  match backend with
  | .vercel => { vm with expiresAt := p.extendTimeout vm.expiresAt ms }
  | .local => { vm with expiresAt := some (vm.expiresAt.getD clock + ms) }
  | .docker => { vm with expiresAt := some (clock + ms) }

section
variable (e : Env) (sessionTimeoutMs : Int) (p : Platform) (row : TimeoutRow) (vm : Vm) (now : Int) (call : SweepCall)

/-- The deadline the sweep wants: the rolling timeout, within the session's cap. -/
def desiredExpiry : Int := min (now + sessionTimeoutMs) (row.sessionStartedAt.getD now + e.sessionCapMs)

/-- Step 6 of the sweep: keep the rolling platform timeout ahead. -/
def extendTimeout : TimeoutRow × Vm :=
  let desired := desiredExpiry e sessionTimeoutMs row now
  let expiresAt := row.sandboxExpiresAt.getD 0
  if extendHorizonMs ≤ expiresAt - now then (row, vm)
  else if desired - expiresAt ≤ extendMinGainMs then (row, vm)
  else if !vm.running then (row, vm)
  else ({ row with sandboxExpiresAt := some desired },
    vm.extendTimeout e.backend p (desired - (vm.peekExpiresAt e.backend call.readOk).getD now) (now + call.elapsed))

/-- The stored deadline is near enough, the gain great enough and the VM running. -/
def Extends : Prop :=
  row.sandboxExpiresAt.getD 0 - now < extendHorizonMs ∧
    extendMinGainMs < desiredExpiry e sessionTimeoutMs row now - row.sandboxExpiresAt.getD 0 ∧ vm.running = true

/-- The sweep does not have a container extended, or has it at the very moment its deadline, as read, has come. -/
def NoDockerExtension : Prop :=
  e.backend ≠ .docker ∨ ¬ Extends e sessionTimeoutMs row vm now ∨
    now + call.elapsed = (vm.peekExpiresAt .docker call.readOk).getD now

instance : Decidable (Extends e sessionTimeoutMs row vm now) := inferInstanceAs (Decidable (_ ∧ _))

instance : Decidable (NoDockerExtension e sessionTimeoutMs row vm now call) := inferInstanceAs (Decidable (_ ∨ _))

end

/-- The stored deadline is the VM's. -/
def Agree (row : TimeoutRow) (vm : Vm) (t : Int) : Prop := row.sandboxExpiresAt = some t ∧ vm.expiresAt = some t

/-- Afterwards they agree still, on no earlier deadline. -/
def AgreeFrom (t : Int) (x : TimeoutRow × Vm) : Prop := ∃ t', Agree x.1 x.2 t' ∧ t ≤ t'

variable {e : Env} {sessionTimeoutMs : Int} {p : Platform} {row : TimeoutRow} {vm : Vm} {now t : Int} {call : SweepCall}

/-! ## One extension -/

theorem extendTimeout_of_not (h : ¬ Extends e sessionTimeoutMs row vm now) :
    extendTimeout e sessionTimeoutMs p row vm now call = (row, vm) := by
  unfold extendTimeout
  dsimp only
  split
  · rfl
  · next hnear =>
    split
    · rfl
    · next hgain =>
      split
      · rfl
      · next hrunning =>
        have hextends : Extends e sessionTimeoutMs row vm now := ⟨by omega, by omega, by simpa using hrunning⟩
        exact absurd hextends h

theorem extendTimeout_of_extends (h : Extends e sessionTimeoutMs row vm now) :
    extendTimeout e sessionTimeoutMs p row vm now call =
      ({ row with sandboxExpiresAt := some (desiredExpiry e sessionTimeoutMs row now) },
        vm.extendTimeout e.backend p (desiredExpiry e sessionTimeoutMs row now -
          (vm.peekExpiresAt e.backend call.readOk).getD now) (now + call.elapsed)) := by
  obtain ⟨hnear, hgain, hrunning⟩ := h
  unfold extendTimeout
  dsimp only
  rw [if_neg (by omega), if_neg (by omega), hrunning]
  rfl

/-- The VM's deadline after an extension, with the backend told `ms`. -/
theorem expiresAt_extendTimeout (hp : p.Extends) (hvm : vm.expiresAt = some t) (ms clock : Int) :
    (vm.extendTimeout e.backend p ms clock).expiresAt = some (if e.backend = .docker then clock + ms else t + ms) := by
  unfold Vm.extendTimeout
  cases hbackend : e.backend with
  | vercel =>
    show p.extendTimeout vm.expiresAt ms = some (t + ms)
    rw [hvm]
    exact hp t ms
  | «local» =>
    show some (vm.expiresAt.getD clock + ms) = some (t + ms)
    rw [hvm, Option.getD_some]
  | docker => rfl

/-- The step: agreement outlasts the sweep exactly where no container is extended. -/
theorem agreeFrom_extendTimeout (hp : p.Extends) (h : Agree row vm t) :
    AgreeFrom t (extendTimeout e sessionTimeoutMs p row vm now call) ↔
      NoDockerExtension e sessionTimeoutMs row vm now call := by
  obtain ⟨hrow, hvm⟩ := h
  by_cases hextends : Extends e sessionTimeoutMs row vm now
  · have hgain := hextends.2.1
    rw [hrow, Option.getD_some] at hgain
    have hmin : (0 : Int) ≤ extendMinGainMs := by decide
    rw [extendTimeout_of_extends hextends]
    generalize hdesired : desiredExpiry e sessionTimeoutMs row now = desired at hgain ⊢
    constructor
    · rintro ⟨t', ⟨hstored, hdeadline⟩, -⟩
      cases hstored
      rw [expiresAt_extendTimeout hp hvm, Option.some.injEq] at hdeadline
      by_cases hdocker : e.backend = .docker
      · rw [if_pos hdocker, hdocker] at hdeadline
        refine .inr (.inr ?_)
        omega
      · exact .inl hdocker
    · intro hcondition
      refine ⟨desired, ⟨rfl, ?_⟩, by omega⟩
      show (vm.extendTimeout e.backend p (desired - (vm.peekExpiresAt e.backend call.readOk).getD now)
        (now + call.elapsed)).expiresAt = some desired
      rw [expiresAt_extendTimeout hp hvm, Option.some.injEq]
      by_cases hdocker : e.backend = .docker
      · rcases hcondition with hnot | hnot | hclock
        · exact absurd hdocker hnot
        · exact absurd hextends hnot
        · rw [if_pos hdocker, hdocker]
          omega
      · have hpeek : vm.peekExpiresAt e.backend call.readOk = some t := by
          unfold Vm.peekExpiresAt
          split
          · next hbackend => exact absurd hbackend hdocker
          · exact hvm
        rw [if_neg hdocker, hpeek, Option.getD_some]
        omega
  · rw [extendTimeout_of_not hextends]
    exact iff_of_true ⟨t, ⟨hrow, hvm⟩, Int.le_refl t⟩ (.inr (.inl hextends))

/-! ## Any number of sweeps -/

/-- The clock, a workspace's row and its VM. -/
structure Rolling where
  now : Int
  row : TimeoutRow
  vm : Vm
  deriving DecidableEq

inductive RollingEvent where
  | advance (ms : Nat)
  | sweep (call : SweepCall)
  | stop

def Rolling.step (e : Env) (sessionTimeoutMs : Int) (p : Platform) (s : Rolling) : RollingEvent → Option Rolling
  | .advance ms => some { s with now := s.now + ms }
  | .sweep call =>
    let r := extendTimeout e sessionTimeoutMs p s.row s.vm s.now call
    some ⟨s.now + call.elapsed, r.1, r.2⟩
  | .stop => some { s with vm := { s.vm with running := false } }

def rolling (e : Env) (sessionTimeoutMs : Int) (p : Platform) : System Rolling RollingEvent where
  init _ := True
  step := Rolling.step e sessionTimeoutMs p

/-- A sweep does not have a container extended. -/
def SweepsNoDocker (e : Env) (sessionTimeoutMs : Int) (s : Rolling) : RollingEvent → Prop
  | .sweep call => NoDockerExtension e sessionTimeoutMs s.row s.vm s.now call
  | _ => True

theorem agreeFrom_step {s s' : Rolling} {event : RollingEvent} (hp : p.Extends) (h : AgreeFrom t (s.row, s.vm))
    (hg : SweepsNoDocker e sessionTimeoutMs s event) (hstep : s.step e sessionTimeoutMs p event = some s') :
    AgreeFrom t (s'.row, s'.vm) := by
  obtain ⟨t₁, hagree, hle⟩ := h
  cases event with
  | advance ms => cases hstep; exact ⟨t₁, hagree, hle⟩
  | sweep call =>
    cases hstep
    obtain ⟨t₂, hagree, hle'⟩ := (agreeFrom_extendTimeout hp hagree).2 hg
    exact ⟨t₂, hagree, Int.le_trans hle hle'⟩
  | stop => cases hstep; exact ⟨t₁, hagree, hle⟩

/-- A row that stores its VM's deadline stores it after the sweep too, and no earlier one, exactly when the sweep has no
container extended; and so after any number of such sweeps. -/
theorem extendTimeout_keeps_agreement (e : Env) (sessionTimeoutMs : Int) (p : Platform) (hp : p.Extends) :
    (∀ row vm t now call, Agree row vm t → (AgreeFrom t (extendTimeout e sessionTimeoutMs p row vm now call) ↔
      NoDockerExtension e sessionTimeoutMs row vm now call)) ∧
    ∀ s s' t, Agree s.row s.vm t → (rolling e sessionTimeoutMs p).Run (SweepsNoDocker e sessionTimeoutMs) s s' →
      AgreeFrom t (s'.row, s'.vm) := by
  refine ⟨fun row vm t now call h => agreeFrom_extendTimeout hp h, fun s s' t h hrun => ?_⟩
  have hstart : AgreeFrom t (s.row, s.vm) := ⟨t, h, Int.le_refl t⟩
  exact hrun.invariant (I := fun u : Rolling => AgreeFrom t (u.row, u.vm))
    (fun u event u' hu hg hstep => agreeFrom_step hp hu hg hstep) hstart

/-! ## Runs -/

def samplePlatform : Platform := ⟨fun deadline ms => deadline.map (· + ms)⟩

theorem extends_samplePlatform : samplePlatform.Extends := fun _ _ => rfl

/-- Two hours of the rolling four are over. -/
def sampleRolling : Rolling := ⟨7200000, ⟨some 0, some 14400000⟩, ⟨true, some 14400000, 0, 14400000⟩⟩

theorem extendTimeout_keeps_agreement_sample : ∃ s' : Rolling, s'.row.sandboxExpiresAt = some 32400000 ∧
    AgreeFrom 14400000 (s'.row, s'.vm) := by
  let G := SweepsNoDocker sampleEnv 14400000
  have hrun : (rolling sampleEnv 14400000 samplePlatform).Run G sampleRolling
      ⟨18000000, ⟨some 0, some 32400000⟩, ⟨true, some 32400000, 0, 14400000⟩⟩ :=
    .step (.step (.step .refl (e := .sweep ⟨true, 10⟩) (.inl (by decide)) rfl) (e := .advance 10799990) trivial rfl)
      (e := .sweep ⟨true, 0⟩) (.inl (by decide)) rfl
  exact ⟨_, rfl, (extendTimeout_keeps_agreement sampleEnv 14400000 samplePlatform extends_samplePlatform).2
    sampleRolling _ 14400000 ⟨rfl, rfl⟩ hrun⟩

/-- The sweep stores four hours from now and the container is left the two that it had. -/
theorem docker_deadline_left_behind : ¬ ∀ (e : Env) (sessionTimeoutMs : Int) (p : Platform) (row : TimeoutRow) (vm : Vm)
    (t now : Int) (call : SweepCall), p.Extends → Agree row vm t →
      AgreeFrom t (extendTimeout e sessionTimeoutMs p row vm now call) := by
  intro h
  let e : Env := { sampleEnv with backend := .docker }
  have hagree := h e 14400000 samplePlatform sampleRolling.row sampleRolling.vm 14400000 sampleRolling.now ⟨true, 10⟩
    extends_samplePlatform ⟨rfl, rfl⟩
  have hresult : extendTimeout e 14400000 samplePlatform sampleRolling.row sampleRolling.vm sampleRolling.now ⟨true, 10⟩ =
      (⟨some 0, some 21600000⟩, ⟨true, some 14400010, 0, 14400000⟩) := by decide
  rw [hresult] at hagree
  obtain ⟨t', ⟨hstored, hdeadline⟩, -⟩ := hagree
  cases hstored
  cases hdeadline

end Zedspaces.Web
