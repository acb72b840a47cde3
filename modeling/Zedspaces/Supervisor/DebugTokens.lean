/-
Debug tokens are single use. A used id stays in the table while its token has not expired, and an expired token is not
accepted, so an id that was accepted is never accepted again; its one session starts what is defined by the message
whose hash the token carries (`debug_tokens`). A definition with a command and a connection starts both
(`debug_process_and_connection`).
-/
import Zedspaces.Supervisor.DebugService

namespace Zedspaces.Supervisor

open Std Lib Lib.System

variable {c : DebugCrates} {s s' : Debugger} {e : DebugEvent} {req : DebugRequest}

namespace Debugger

/-! ## Acceptance -/

/-- What the table knows of the accepted tokens. -/
structure Recorded (s : Debugger) : Prop where
  ids : (s.signed.map (·.2.jti)).Nodup
  signed : ∀ claims ∈ s.accepted, claims ∈ s.signed.map Prod.snd
  /-- An accepted token is recorded until it expires. -/
  record : ∀ claims ∈ s.accepted, s.clock < claims.exp → s.used[claims.jti]? = some claims.exp
  once : (s.accepted.map (·.jti)).Nodup
  size : s.used.size ≤ 128

/-- A verified token was signed. -/
theorem mem_of_decode {config : DebugConfig} {token : Text} {claims : DebugClaims}
    (h : s.decode c config token = some claims) : claims ∈ s.signed.map Prod.snd := by
  obtain ⟨hclaims, -⟩ := Option.filter_eq_some_iff.1 h
  obtain ⟨p, hp, rfl⟩ := Option.map_eq_some_iff.1 hclaims
  exact List.mem_map_of_mem (List.mem_of_find?_eq_some hp)

/-- What is known of a token that is accepted, with the table it leaves. -/
structure Accepts (s : Debugger) (claims : DebugClaims) (used : Expiries) : Prop where
  signed : claims ∈ s.signed.map Prod.snd
  live : s.clock < claims.exp
  free : s.used[claims.jti]?.filter (s.clock < ·) = none
  used_eq : used = (prune s.used s.clock).insert claims.jti claims.exp
  size : used.size ≤ 128

def accept (s : Debugger) (claims : DebugClaims) (used : Expiries) : Debugger :=
  { s with used, accepted := claims :: s.accepted }

def enter (s : Debugger) (claims : DebugClaims) : Debugger :=
  { s with slots := s.slots - 1, nextId := s.nextId + 1, sessions := ⟨s.nextId, claims, .awaiting⟩ :: s.sessions }

/-- An upgrade accepts no token, or one, for which it may open a session. -/
theorem upgrade_cases (s : Debugger) (req : DebugRequest) :
    (∃ used, (used = s.used ∨ used = prune s.used s.clock) ∧ (s.upgrade c req).1 = { s with used }) ∨
    ∃ claims used, s.Accepts claims used ∧
      ((s.upgrade c req).1 = s.accept claims used ∨ (s.upgrade c req).1 = (s.accept claims used).enter claims) := by
  unfold upgrade
  cases h : DebugService.authorize (s.decode c) s.config s.clock req s.used with
  | mk result used =>
    cases result with
    | error message => exact .inl ⟨used, DebugService.authorize_error h, rfl⟩
    | ok claims =>
      obtain ⟨hclaims, hfree, hused, hsize⟩ := DebugService.authorize_ok h
      obtain ⟨⟨config, token, hdecode⟩, hlive⟩ := DebugService.authorizeClaims_ok hclaims
      refine .inr ⟨claims, used, ⟨mem_of_decode hdecode, hlive, hfree, hused, hsize⟩, ?_⟩
      dsimp only
      split
      · exact .inl rfl
      · split
        · exact .inl rfl
        · split
          · exact .inl rfl
          · exact .inr rfl

/-- A step that neither signs nor accepts, nor changes the table. -/
theorem Recorded.frame (h : s.Recorded) (hclock : s.clock ≤ s'.clock) (hused : s'.used = s.used)
    (hsigned : s'.signed = s.signed) (haccepted : s'.accepted = s.accepted) : s'.Recorded where
  ids := hsigned ▸ h.ids
  signed := hsigned ▸ haccepted ▸ h.signed
  record claims hmem hexp := by
    rw [hused]
    exact h.record claims (haccepted ▸ hmem) (Nat.lt_of_le_of_lt hclock hexp)
  once := haccepted ▸ h.once
  size := hused ▸ h.size

/-- Pruning drops no record of a token that has not expired. -/
theorem Recorded.prune (h : s.Recorded) : Recorded { s with used := prune s.used s.clock } where
  ids := h.ids
  signed := h.signed
  record claims hmem hlive := by
    rw [getElem?_prune, h.record claims hmem hlive]
    exact Option.filter_eq_some_iff.2 ⟨rfl, decide_eq_true hlive⟩
  once := h.once
  size := Nat.le_trans ExtTreeMap.size_filter_le_size h.size

/-- An id that is accepted was not accepted before. -/
theorem Recorded.fresh {claims : DebugClaims} {used : Expiries} (h : s.Recorded) (ha : s.Accepts claims used) :
    claims.jti ∉ s.accepted.map (·.jti) := by
  intro hjti
  obtain ⟨old, hold, heq⟩ := List.mem_map.1 hjti
  -- an id names one token, and that one is still recorded
  have hids : ((s.signed.map Prod.snd).map fun x : DebugClaims => x.jti).Nodup := by
    rw [List.map_map]
    exact h.ids
  have hsame : old = claims := List.inj_on_of_nodup_map hids (h.signed old hold) ha.signed heq
  subst hsame
  have hfree := ha.free
  rw [h.record old hold ha.live] at hfree
  exact Option.filter_eq_none_iff.1 hfree old.exp rfl (decide_eq_true ha.live)

theorem Recorded.accept {claims : DebugClaims} {used : Expiries} (h : s.Recorded) (ha : s.Accepts claims used) :
    (s.accept claims used).Recorded where
  ids := h.ids
  signed := List.forall_mem_cons.2 ⟨ha.signed, h.signed⟩
  record old hold hlive := by
    show used[old.jti]? = _
    rw [ha.used_eq, Maps.getElem?_insert]
    rcases List.mem_cons.1 hold with rfl | hold
    · exact if_pos rfl
    · have hne : claims.jti ≠ old.jti := fun heq => h.fresh ha (List.mem_map.2 ⟨old, hold, heq.symm⟩)
      rw [if_neg hne]
      exact h.prune.record old hold hlive
  once := List.nodup_cons.2 ⟨h.fresh ha, h.once⟩
  size := ha.size

theorem Recorded.upgrade (h : s.Recorded) (req : DebugRequest) : (s.upgrade c req).1.Recorded := by
  rcases upgrade_cases (c := c) s req with ⟨used, rfl | rfl, heq⟩ | ⟨claims, used, ha, heq | heq⟩
  · rw [heq]
    exact h
  · rw [heq]
    exact h.prune
  · rw [heq]
    exact h.accept ha
  · rw [heq]
    exact (h.accept ha).frame (Nat.le_refl _) rfl rfl rfl

theorem Recorded.step (h : s.Recorded) (hstep : s.step c e = some s') : s'.Recorded := by
  cases e with
  | advance seconds =>
    cases hstep
    exact h.frame (Nat.le_add_right _ _) rfl rfl rfl
  | configure config =>
    cases hstep
    exact h.frame (Nat.le_refl _) rfl rfl rfl
  | sign token claims =>
    simp only [Debugger.step] at hstep
    split at hstep
    · cases hstep
    · next hfresh =>
      cases hstep
      refine ⟨List.nodup_cons.2 ⟨hfresh, h.ids⟩, fun old hold => ?_, h.record, h.once, h.size⟩
      exact List.mem_cons_of_mem _ (h.signed old hold)
  | upgrade req =>
    cases hstep
    exact h.upgrade req
  | first id message canonicalize spawned =>
    obtain ⟨x, -, hstep⟩ := Option.bind_eq_some_iff.1 hstep
    split at hstep
    · cases hstep
      unfold launch
      split
      · exact h.frame (Nat.le_refl _) rfl rfl rfl
      · split
        · exact h.frame (Nat.le_refl _) rfl rfl rfl
        · exact h.frame (Nat.le_refl _) rfl rfl rfl
    · cases hstep
  | connected id =>
    obtain ⟨x, -, hstep⟩ := Option.bind_eq_some_iff.1 hstep
    split at hstep
    · cases hstep
      exact h.frame (Nat.le_refl _) rfl rfl rfl
    · cases hstep
  | closed id =>
    obtain ⟨x, -, rfl⟩ := Option.map_eq_some_iff.1 hstep
    exact h.frame (Nat.le_refl _) rfl rfl rfl

/-! ## Sessions -/

/-- What has been started for the token of a session that is in a phase. -/
def Due (c : DebugCrates) (started : List Start) (claims : DebugClaims) : DebugPhase → Prop
  | .awaiting => ∀ start ∈ started, start.jti ≠ claims.jti
  | .connecting definition => c.hexDigest definition = claims.launch ∧
      ∀ start ∈ started, start.jti = claims.jti → start.kind = .process
  | .running => True

/-- The sessions and what they started. -/
structure Launched (c : DebugCrates) (s : Debugger) : Prop where
  distinct : (s.sessions.map (·.claims.jti)).Nodup
  accepted : ∀ x ∈ s.sessions, x.claims ∈ s.accepted
  once : (s.started.map fun start => (start.jti, start.kind)).Nodup
  defined : ∀ start ∈ s.started, ∃ claims ∈ s.accepted, claims.jti = start.jti ∧
    c.hexDigest start.definition = claims.launch
  due : ∀ x ∈ s.sessions, Due c s.started x.claims x.phase

/-- What is started for another token does not matter. -/
theorem Due.append {started new : List Start} {claims : DebugClaims} {phase : DebugPhase}
    (h : Due c started claims phase) (hnew : ∀ start ∈ new, start.jti ≠ claims.jti) :
    Due c (new ++ started) claims phase := by
  cases phase with
  | awaiting =>
    intro start hstart
    rcases List.mem_append.1 hstart with hstart | hstart
    · exact hnew start hstart
    · exact h start hstart
  | connecting definition =>
    refine ⟨h.1, fun start hstart hjti => ?_⟩
    rcases List.mem_append.1 hstart with hstart | hstart
    · exact absurd hjti (hnew start hstart)
    · exact h.2 start hstart hjti
  | running => trivial

theorem Launched.frame (h : s.Launched c) (hsessions : s'.sessions = s.sessions) (hstarted : s'.started = s.started)
    (haccepted : ∀ claims ∈ s.accepted, claims ∈ s'.accepted) : s'.Launched c where
  distinct := hsessions ▸ h.distinct
  accepted x hx := haccepted _ (h.accepted x (hsessions ▸ hx))
  once := hstarted ▸ h.once
  defined start hstart := by
    obtain ⟨claims, hclaims, hdefined⟩ := h.defined start (hstarted ▸ hstart)
    exact ⟨claims, haccepted claims hclaims, hdefined⟩
  due := hsessions ▸ hstarted ▸ h.due

/-- The other sessions are those of other tokens. -/
theorem Launched.others (h : s.Launched c) {x y : DebugSession} (hx : x ∈ s.sessions) (hy : y ∈ s.others x.id) :
    y ∈ s.sessions ∧ x.claims.jti ≠ y.claims.jti := by
  obtain ⟨hmem, hid⟩ := List.mem_filter.1 hy
  refine ⟨hmem, fun hjti => ?_⟩
  have hsame : x = y := List.inj_on_of_nodup_map h.distinct hx hmem hjti
  exact of_decide_eq_true hid (congrArg DebugSession.id hsame.symm)

theorem Launched.close (h : s.Launched c) (id : Nat) : (s.close id).Launched c where
  distinct := h.distinct.sublist (List.filter_sublist.map _)
  accepted x hx := h.accepted x (List.mem_of_mem_filter hx)
  once := h.once
  defined := h.defined
  due x hx := h.due x (List.mem_of_mem_filter hx)

/-- A session goes on to another phase and starts something for its token. -/
theorem Launched.goOn (h : s.Launched c) {x : DebugSession} (hx : x ∈ s.sessions) {phase : DebugPhase}
    {new : List Start} (hnew : ∀ start ∈ new, start.jti = x.claims.jti ∧ c.hexDigest start.definition = x.claims.launch)
    (honce : ((new ++ s.started).map fun start => (start.jti, start.kind)).Nodup)
    (hdue : Due c (new ++ s.started) x.claims phase) :
    Launched c { s with sessions := { x with phase } :: s.others x.id, started := new ++ s.started } where
  distinct := by
    refine List.nodup_cons.2 ⟨fun hmem => ?_, h.distinct.sublist (List.filter_sublist.map _)⟩
    obtain ⟨y, hy, hjti⟩ := List.mem_map.1 hmem
    exact (h.others hx hy).2 hjti.symm
  accepted := List.forall_mem_cons.2 ⟨h.accepted x hx, fun y hy => h.accepted y (h.others hx hy).1⟩
  once := honce
  defined start hstart := by
    rcases List.mem_append.1 hstart with hstart | hstart
    · exact ⟨x.claims, h.accepted x hx, (hnew start hstart).1.symm, (hnew start hstart).2⟩
    · exact h.defined start hstart
  due := by
    refine List.forall_mem_cons.2 ⟨hdue, fun y hy => ?_⟩
    obtain ⟨hmem, hjti⟩ := h.others hx hy
    exact (h.due y hmem).append fun start hstart => (hnew start hstart).1 ▸ hjti

/-- A session of a token that was not accepted before. -/
theorem Launched.enter (h : s.Launched c) {claims : DebugClaims} {used : Expiries}
    (hfresh : claims.jti ∉ s.accepted.map (·.jti)) : ((s.accept claims used).enter claims).Launched c where
  distinct := by
    refine List.nodup_cons.2 ⟨fun hmem => ?_, h.distinct⟩
    obtain ⟨y, hy, hjti⟩ := List.mem_map.1 hmem
    exact hfresh (List.mem_map.2 ⟨y.claims, h.accepted y hy, hjti⟩)
  accepted := List.forall_mem_cons.2 ⟨List.mem_cons_self .., fun y hy => List.mem_cons_of_mem _ (h.accepted y hy)⟩
  once := h.once
  defined start hstart := by
    obtain ⟨old, hold, hdefined⟩ := h.defined start hstart
    exact ⟨old, List.mem_cons_of_mem _ hold, hdefined⟩
  due := by
    refine List.forall_mem_cons.2 ⟨fun start hstart hjti => ?_, h.due⟩
    obtain ⟨old, hold, hdefined⟩ := h.defined start hstart
    exact hfresh (List.mem_map.2 ⟨old, hold, hdefined.1.trans hjti⟩)

/-- What is launched is defined by a message with the hash that the token carries. -/
theorem checkLaunch_ok {canonicalize : Text → Except String (List Text)} {config : Option DebugConfig}
    {claims : DebugClaims} {first : FirstMessage} {launch : Launch}
    (h : checkLaunch c canonicalize config claims first = .ok launch) : c.hexDigest first.data = claims.launch := by
  unfold checkLaunch at h
  obtain ⟨-, h⟩ := check_bind_ok.1 h
  obtain ⟨hdigest, -⟩ := check_bind_ok.1 h
  unfold bailIf at hdigest
  split at hdigest
  · cases hdigest
  · next hnot => exact not_not.1 hnot

theorem Launched.launch (h : s.Launched c) {x : DebugSession} (hx : x ∈ s.sessions) (hphase : x.phase = .awaiting)
    (first : FirstMessage) (canonicalize : Text → Except String (List Text)) (spawned : Bool) :
    (s.launch c x first canonicalize spawned).Launched c := by
  have hnone : ∀ start ∈ s.started, start.jti ≠ x.claims.jti := by
    have hdue := h.due x hx
    rwa [hphase] at hdue
  unfold Debugger.launch
  split
  · exact h.close x.id
  · next launch hlaunch =>
    have hdigest := checkLaunch_ok hlaunch
    split
    · exact h.close x.id
    · have hnew : ∀ start ∈ (if launch.command.isSome then [(⟨x.claims.jti, .process, first.data⟩ : Start)] else []),
          start = ⟨x.claims.jti, .process, first.data⟩ := by
        split
        · exact fun start hstart => List.mem_singleton.1 hstart
        · exact fun start hstart => nomatch hstart
      refine h.goOn hx (fun start hstart => hnew start hstart ▸ ⟨rfl, hdigest⟩) ?_ ?_
      · split
        · refine List.nodup_cons.2 ⟨fun hmem => ?_, h.once⟩
          obtain ⟨start, hstart, heq⟩ := List.mem_map.1 hmem
          exact hnone start hstart (congrArg Prod.fst heq)
        · exact h.once
      · generalize (if launch.command.isSome then [(⟨x.claims.jti, .process, first.data⟩ : Start)] else []) = new
          at hnew
        split
        · refine ⟨hdigest, fun start hstart hjti => ?_⟩
          rcases List.mem_append.1 hstart with hstart | hstart
          · rw [hnew start hstart]
          · exact absurd hjti (hnone start hstart)
        · trivial

theorem Launched.connect (h : s.Launched c) {x : DebugSession} (hx : x ∈ s.sessions) {definition : List UInt8}
    (hphase : x.phase = .connecting definition) : (s.connect x definition).Launched c := by
  obtain ⟨hdigest, hprocess⟩ : Due c s.started x.claims (.connecting definition) := hphase ▸ h.due x hx
  have hnew : ∀ start ∈ [(⟨x.claims.jti, .connection, definition⟩ : Start)], start.jti = x.claims.jti ∧
      c.hexDigest start.definition = x.claims.launch := List.forall_mem_singleton.2 ⟨rfl, hdigest⟩
  refine h.goOn hx hnew (List.nodup_cons.2 ⟨fun hmem => ?_, h.once⟩) trivial
  obtain ⟨start, hstart, heq⟩ := List.mem_map.1 hmem
  have hkind := hprocess start hstart (congrArg Prod.fst heq)
  have hother : start.kind = .connection := congrArg Prod.snd heq
  rw [hkind] at hother
  cases hother

theorem Launched.step (h : s.Launched c) (hr : s.Recorded) (hstep : s.step c e = some s') : s'.Launched c := by
  cases e with
  | advance seconds =>
    cases hstep
    exact h.frame rfl rfl fun _ hmem => hmem
  | configure config =>
    cases hstep
    exact h.frame rfl rfl fun _ hmem => hmem
  | sign token claims =>
    simp only [Debugger.step] at hstep
    split at hstep
    · cases hstep
    · cases hstep
      exact h.frame rfl rfl fun _ hmem => hmem
  | upgrade req =>
    cases hstep
    rcases upgrade_cases (c := c) s req with ⟨used, -, heq⟩ | ⟨claims, used, ha, heq | heq⟩
    · rw [heq]
      exact h.frame rfl rfl fun _ hmem => hmem
    · rw [heq]
      exact h.frame rfl rfl fun _ hmem => List.mem_cons_of_mem _ hmem
    · rw [heq]
      exact h.enter (hr.fresh ha)
  | first id message canonicalize spawned =>
    obtain ⟨x, hx, hstep⟩ := Option.bind_eq_some_iff.1 hstep
    split at hstep
    · next hphase =>
      cases hstep
      exact h.launch (List.mem_of_find?_eq_some hx) hphase message canonicalize spawned
    · cases hstep
  | connected id =>
    obtain ⟨x, hx, hstep⟩ := Option.bind_eq_some_iff.1 hstep
    split at hstep
    · next hphase =>
      cases hstep
      exact h.connect (List.mem_of_find?_eq_some hx) hphase
    · cases hstep
  | closed id =>
    obtain ⟨x, -, rfl⟩ := Option.map_eq_some_iff.1 hstep
    exact h.close x.id

end Debugger

/-! ## Runs -/

theorem recorded_debugger {G : Debugger → DebugEvent → Prop} (h : (debugger c).Reach G s) : s.Recorded := by
  refine h.invariant (fun s hs => ?_) fun _ _ _ _ hi _ hstep => hi.step hstep
  obtain ⟨hused, -, -, -, hsigned, haccepted, -⟩ := hs
  refine ⟨by rw [hsigned]; exact List.nodup_nil, by rw [haccepted]; rintro _ ⟨⟩, by rw [haccepted]; rintro _ ⟨⟩,
    by rw [haccepted]; exact List.nodup_nil, ?_⟩
  rw [hused, ExtTreeMap.size_empty]
  exact Nat.zero_le _

theorem launched_debugger {G : Debugger → DebugEvent → Prop} (h : (debugger c).Reach G s) : s.Launched c := by
  refine h.invariant (fun s hs => ?_) fun _ _ _ hr hi _ hstep => hi.step (recorded_debugger hr) hstep
  obtain ⟨-, -, -, hsessions, -, -, hstarted⟩ := hs
  exact ⟨by rw [hsessions]; exact List.nodup_nil, by rw [hsessions]; rintro _ ⟨⟩,
    by rw [hstarted]; exact List.nodup_nil, by rw [hstarted]; rintro _ ⟨⟩, by rw [hsessions]; rintro _ ⟨⟩⟩

/-- An id is accepted once and starts one process and one connection at most, each defined by what its token carries the
hash of; and the table is bounded. -/
theorem debug_tokens (c : DebugCrates) (s : Debugger) (h : (debugger c).Reach free s) :
    (s.accepted.map (·.jti)).Nodup ∧ (s.started.map fun start => (start.jti, start.kind)).Nodup ∧
      (∀ start ∈ s.started, ∃ claims ∈ s.accepted, claims.jti = start.jti ∧
        c.hexDigest start.definition = claims.launch) ∧ s.used.size ≤ 128 :=
  ⟨(recorded_debugger h).once, (launched_debugger h).once, (launched_debugger h).defined, (recorded_debugger h).size⟩

/-- An adapter that is started and then connected to. -/
def sampleDefinition : List UInt8 :=
  Text.utf8 ("\x7b\"command\":\"dlv\",\"arguments\":[\"dap\"],\"envs\":\x7b\x7d,\"cwd\":null," ++
    "\"connection\":\x7b\"host\":\"127.0.0.1\",\"port\":4711,\"timeout\":null\x7d\x7d").toList

def sampleLaunch : Launch :=
  ⟨some "dlv".toList, ["dap".toList], [], none, some ⟨.v4 ⟨127, 0, 0, 1⟩, 4711, none⟩⟩

def sampleHash : Text := "5a681f280606fa01290fe4c3380f3b44826922a71ff12ec35244babfe338638b".toList

def sampleDebugCrates : DebugCrates where
  validates _ now claims := decide (now < claims.exp + 5)
  decodeKey key := if key = "AAAAAAAAAAAAAAAAAAAAAA==".toList then some (List.replicate 16 0) else none
  hexDigest data := if data = sampleDefinition then sampleHash else []
  fromSlice data := if data = sampleDefinition then .ok sampleLaunch else .error "expected value"

def sampleClaims : DebugClaims := ⟨"w".toList, "u".toList, 220, 100, "t", sampleHash⟩

def sampleUpgrade : DebugRequest where
  method := "GET".toList
  origin := some "https://w.example".toList
  protocols := some "zs.dap.v1, token".toList
  connection := some "Upgrade".toList
  upgrade := some "websocket".toList
  version := some "13".toList
  key := some "AAAAAAAAAAAAAAAAAAAAAA==".toList

def sampleDebugger : Debugger := ⟨100, none, ∅, debugSlots, 0, [], [], [], []⟩

/-- The token is presented twice, and its session starts the adapter. -/
def sampleDebugEvents : List DebugEvent :=
  [.configure ⟨"w".toList, "/w".toList, ["https://w.example".toList]⟩, .sign "token".toList sampleClaims,
    .upgrade sampleUpgrade, .advance 1, .upgrade sampleUpgrade,
    .first 0 ⟨true, sampleDefinition⟩ (fun path => .ok (path.splitOn '/')) true, .connected 0]

/-- One token is accepted once, and starts both a process and a connection. -/
theorem exists_sampleDebugger : ∃ s, (debugger sampleDebugCrates).Reach free s ∧ s.accepted = [sampleClaims] ∧
    s.started.map (fun start => (start.jti, start.kind)) = [("t", .connection), ("t", .process)] := by
  refine exists_reach_of_exec (S := debugger sampleDebugCrates) _ sampleDebugEvents (s := sampleDebugger)
    ⟨rfl, rfl, rfl, rfl, rfl, rfl, rfl⟩ ?_
  -- the definition and its hash are written out, so that no literal is decoded
  have hdefinition : sampleDefinition = Text.utf8 (_ ++ _) :=
    congrArg Text.utf8 (String.toList_append.trans (congrArg₂ _ String.toList_ofList String.toList_ofList))
  have hhash : sampleHash = _ := String.toList_ofList
  rw [sampleDebugCrates, sampleDebugEvents, sampleClaims, hdefinition, hhash]
  decide +kernel

theorem debug_tokens_replayed : ∃ s : Debugger, s.accepted = [sampleClaims] ∧ s.started.length = 2 ∧
    (s.started.map fun start => (start.jti, start.kind)).Nodup := by
  obtain ⟨s, hr, haccepted, hstarted⟩ := exists_sampleDebugger
  refine ⟨s, haccepted, ?_, (debug_tokens _ s hr).2.1⟩
  have hlength := congrArg List.length hstarted
  rwa [List.length_map] at hlength

theorem debug_process_and_connection : ∃ s, (debugger sampleDebugCrates).Reach free s ∧
    s.started.map (fun start => (start.jti, start.kind)) = [("t", .connection), ("t", .process)] := by
  obtain ⟨s, hr, -, hstarted⟩ := exists_sampleDebugger
  exact ⟨s, hr, hstarted⟩

end Zedspaces.Supervisor
