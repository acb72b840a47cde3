/-
The saves of the editor's documents (`saveDocument` of the host). The saves of a kind are a chain of promises: a call
registers its write on the promise of the one before, which settles whether that save succeeds or fails. The chain's
shape is kept by every step (`Serial`), in whatever order calls, answers and jobs come; what goes over the wire is
read off it (`saves_serialized`).
-/
import Zedspaces.Lib.Promises
import Zedspaces.Lib.System
import Mathlib.Algebra.GroupWithZero.Nat
import Mathlib.Data.List.Sort

namespace Zedspaces.Web.SaveQueue

open Lib

inductive DocumentKind where
  | settings
  | keymap
  deriving DecidableEq, Repr

/-- A promise by its call: the one of the write itself, and that of `previous.then(write, write)`. -/
inductive SavePromise where
  | writing (id : Nat)
  | save (id : Nat)
  deriving DecidableEq, Repr

/-- `adopt` settles the promise of a reaction with the one its handler returned. -/
inductive SaveJob where
  | write (id : Nat)
  | adopt (id : Nat)
  | clear (id : Nat)
  deriving DecidableEq, Repr

/-- A call; `sent` is the version its request carries, once there is one. -/
structure Save (V : Type) where
  kind : DocumentKind
  json : String
  previous : Option SavePromise
  sent : Option (Option V)

/-- What the request comes to: an answer, which may name a version, or a failure. -/
inductive Answer (V : Type) where
  | ok (version : Option V)
  | failed

inductive Wire (V : Type) where
  | put (id : Nat) (kind : DocumentKind) (json : String) (version : Option V)
  | answer (id : Nat) (kind : DocumentKind) (answer : Answer V)

/-- `last` is the `saves` map; `versions` are the shell's. -/
structure Host (V : Type) where
  saves : List (Save V)
  last : DocumentKind → Option SavePromise
  versions : DocumentKind → Option V
  promises : Promises SavePromise SaveJob
  wire : List (Wire V)

variable {V : Type}

/-- The promise a call returns. -/
def Save.promise (id : Nat) (s : Save V) : SavePromise := if s.previous.isSome then .save id else .writing id

/-! ## `saveDocument` -/

/-- `write`, up to its request. -/
def Host.write (st : Host V) (id : Nat) (s : Save V) : Host V :=
  { st with
    saves := st.saves.set id { s with sent := some (st.versions s.kind) }
    wire := st.wire ++ [.put id s.kind s.json (st.versions s.kind)] }

def Host.saveDocument (st : Host V) (kind : DocumentKind) (json : String) : Host V :=
  let id := st.saves.length
  match st.last kind with
  | some previous =>
    { st with
      saves := st.saves ++ [⟨kind, json, some previous, none⟩]
      promises := (st.promises.andThen previous (.write id)).andThen (.save id) (.clear id)
      last := Function.update st.last kind (some (.save id)) }
  | none =>
    { st with
      saves := st.saves ++ [⟨kind, json, none, some (st.versions kind)⟩]
      wire := st.wire ++ [.put id kind json (st.versions kind)]
      promises := st.promises.andThen (.writing id) (.clear id)
      last := Function.update st.last kind (some (.writing id)) }

/-- The rest of `write`: an answer that names no version stands for the one that was sent. -/
def Host.answer (st : Host V) (id : Nat) (answer : Answer V) : Option (Host V) := do
  let s ← st.saves[id]?
  let sent ← s.sent
  if (st.promises.outcome (.writing id)).isSome then none
  else
    let st := { st with wire := st.wire ++ [Wire.answer id s.kind answer] }
    match answer with
    | .ok version => some { st with
        versions := Function.update st.versions s.kind (version.or sent)
        promises := st.promises.settle (.writing id) .fulfilled }
    | .failed => some { st with promises := st.promises.settle (.writing id) .rejected }

/-- One job of the queue. -/
def Host.react (st : Host V) (p : SavePromise) (job : SaveJob) : Option (Host V) := do
  let (outcome, promises) ← st.promises.take p job
  let st := { st with promises }
  match job with
  | .write id => (st.saves[id]?).map fun s =>
    { st.write id s with promises := promises.andThen (.writing id) (.adopt id) }
  | .adopt id => some { st with promises := promises.settle (.save id) outcome }
  | .clear id => (st.saves[id]?).map fun s =>
    { st with last := if st.last s.kind = some p then Function.update st.last s.kind none else st.last }

inductive SaveEvent (V : Type) where
  | call (kind : DocumentKind) (json : String)
  | answer (id : Nat) (answer : Answer V)
  | react (p : SavePromise) (job : SaveJob)

/-- A page, loaded with the versions `loaded`. -/
def page (loaded : DocumentKind → Option V) : System (Host V) (SaveEvent V) where
  init st := st = ⟨[], fun _ => none, loaded, .empty, []⟩
  step st
    | .call kind json => some (st.saveDocument kind json)
    | .answer id answer => st.answer id answer
    | .react p job => st.react p job

/-! ## The chain of a kind -/

/-- Its promise is settled. -/
def Host.Done (st : Host V) (p : SavePromise) : Prop := (st.promises.outcome p).isSome = true

/-- The shape of the chains. -/
structure Serial (st : Host V) : Prop where
  /-- A call is sent when those before it are done. -/
  order : ∀ i j (s t : Save V), i < j → st.saves[i]? = some s → st.saves[j]? = some t → s.kind = t.kind →
    t.sent ≠ none → st.Done (s.promise i)
  /-- A call is chained to the one before it. -/
  previous : ∀ j (t : Save V) q, st.saves[j]? = some t → t.previous = some q → ∃ i, ∃ s : Save V, i < j ∧
    st.saves[i]? = some s ∧ s.kind = t.kind ∧ q = s.promise i ∧
    ∀ k (u : Save V), i < k → k < j → st.saves[k]? = some u → u.kind ≠ t.kind
  waits : ∀ j (t : Save V), st.saves[j]? = some t → t.sent = none → ∃ q, t.previous = some q ∧
    (q, .write j) ∈ st.promises.reactions
  write : ∀ q j, (q, .write j) ∈ st.promises.reactions → ∃ t : Save V, st.saves[j]? = some t ∧ t.sent = none ∧
    t.previous = some q
  adopts : ∀ j (t : Save V), st.saves[j]? = some t → t.previous.isSome → t.sent ≠ none →
    st.Done (.save j) ∨ (.writing j, .adopt j) ∈ st.promises.reactions
  adopt : ∀ q j, (q, .adopt j) ∈ st.promises.reactions → q = .writing j ∧
    ∃ t : Save V, st.saves[j]? = some t ∧ t.sent ≠ none
  writing : ∀ j, st.Done (.writing j) → ∃ t : Save V, st.saves[j]? = some t ∧ t.sent ≠ none
  saved : ∀ j, st.Done (.save j) → st.Done (.writing j)
  clear : ∀ q j, (q, .clear j) ∈ st.promises.reactions → ∃ t : Save V, st.saves[j]? = some t ∧ q = t.promise j
  last_some : ∀ kind q, st.last kind = some q → ∃ j, ∃ t : Save V, st.saves[j]? = some t ∧ t.kind = kind ∧
    q = t.promise j ∧ ∀ i (u : Save V), j < i → st.saves[i]? = some u → u.kind ≠ kind
  last_none : ∀ kind, st.last kind = none → ∀ i (s : Save V), st.saves[i]? = some s → s.kind = kind →
    st.Done (s.promise i)
  nodup : st.promises.reactions.Nodup

section
variable {st st' : Host V} {loaded : DocumentKind → Option V}

theorem Save.promise_cases (id : Nat) (s : Save V) : s.promise id = .save id ∨ s.promise id = .writing id := by
  unfold Save.promise
  split
  · exact .inl rfl
  · exact .inr rfl

/-- A call whose promise is settled was sent and answered. -/
theorem Serial.done (h : Serial st) {i : Nat} {s : Save V} (hs : st.saves[i]? = some s)
    (hdone : st.Done (s.promise i)) : st.Done (.writing i) ∧ s.sent ≠ none := by
  have hwriting : st.Done (.writing i) := by
    rcases s.promise_cases i with hp | hp
    · exact h.saved i (hp ▸ hdone)
    · exact hp ▸ hdone
  obtain ⟨t, ht, hsent⟩ := h.writing i hwriting
  cases hs.symm.trans ht
  exact ⟨hwriting, hsent⟩

/-- When the one before it is done, so are all before it. -/
theorem Serial.all_done (h : Serial st) {j : Nat} {t : Save V} {q : SavePromise} (ht : st.saves[j]? = some t)
    (hq : t.previous = some q) (hdone : st.Done q) {i : Nat} {s : Save V} (hij : i < j) (hs : st.saves[i]? = some s)
    (hkind : s.kind = t.kind) : st.Done (s.promise i) := by
  obtain ⟨k, u, hkj, hu, hukind, rfl, hbetween⟩ := h.previous j t q ht hq
  rcases Nat.lt_trichotomy i k with hlt | rfl | hgt
  · exact h.order i k s u hlt hs hu (hkind.trans hukind.symm) (h.done hu hdone).2
  · cases hs.symm.trans hu
    exact hdone
  · exact absurd hkind (hbetween i s hgt hij hs)

theorem serial_init (loaded : DocumentKind → Option V) : Serial ⟨[], fun _ => none, loaded, .empty, []⟩ := by
  constructor <;> simp [Host.Done, Promises.empty]

/-- A step that leaves the calls as they are, and drops only reactions whose work is done. -/
theorem Serial.of_saves (h : Serial st) (hsaves : st'.saves = st.saves) (hmono : ∀ {p}, st.Done p → st'.Done p)
    (hold : ∀ reaction ∈ st'.promises.reactions, reaction ∈ st.promises.reactions)
    (hwrite : ∀ q j, (q, .write j) ∈ st.promises.reactions → (q, .write j) ∈ st'.promises.reactions)
    (hadopt : ∀ j, (.writing j, .adopt j) ∈ st.promises.reactions →
      st'.Done (.save j) ∨ (.writing j, .adopt j) ∈ st'.promises.reactions)
    (hwriting : ∀ j, st'.Done (.writing j) → st.Done (.writing j) ∨ ∃ t, st.saves[j]? = some t ∧ t.sent ≠ none)
    (hsaved : ∀ j, st'.Done (.save j) → st.Done (.save j) ∨ st.Done (.writing j))
    (hlast : ∀ kind q, st'.last kind = some q → st.last kind = some q)
    (hnone : ∀ kind, st'.last kind = none → st.last kind = none ∨
      ∀ i (s : Save V), st.saves[i]? = some s → s.kind = kind → st.Done (s.promise i))
    (hnodup : st'.promises.reactions.Nodup) : Serial st' := by
  constructor
  · rw [hsaves]
    exact fun i j s t hij hi hj hkind hj' => hmono (h.order i j s t hij hi hj hkind hj')
  · rw [hsaves]
    exact h.previous
  · intro j t hj hwait
    rw [hsaves] at hj
    obtain ⟨q, hq, hjob⟩ := h.waits j t hj hwait
    exact ⟨q, hq, hwrite q j hjob⟩
  · rw [hsaves]
    exact fun q j hjob => h.write q j (hold _ hjob)
  · intro j t hj hprev hsent
    rw [hsaves] at hj
    rcases h.adopts j t hj hprev hsent with hdone | hjob
    · exact .inl (hmono hdone)
    · exact hadopt j hjob
  · rw [hsaves]
    exact fun q j hjob => h.adopt q j (hold _ hjob)
  · rw [hsaves]
    exact fun j hj => (hwriting j hj).elim (h.writing j) id
  · exact fun j hj => hmono ((hsaved j hj).elim (h.saved j) id)
  · rw [hsaves]
    exact fun q j hjob => h.clear q j (hold _ hjob)
  · rw [hsaves]
    exact fun kind q hq => h.last_some kind q (hlast kind q hq)
  · intro kind hkind i s hi hs
    rw [hsaves] at hi
    rcases hnone kind hkind with hnone | hall
    · exact hmono (h.last_none kind hnone i s hi hs)
    · exact hmono (hall i s hi hs)
  · exact hnodup

/-- Settling the promise of a request. -/
theorem Serial.settle_writing (h : Serial st) {id : Nat} {s : Save V} (hs : st.saves[id]? = some s)
    (hsent : s.sent ≠ none) (outcome : Outcome) (hsaves : st'.saves = st.saves) (hlast : st'.last = st.last)
    (hpromises : st'.promises = st.promises.settle (.writing id) outcome) : Serial st' := by
  have hdone : ∀ p, st'.Done p ↔ p = .writing id ∨ st.Done p := by
    intro p
    rw [Host.Done, hpromises, Promises.settle_isSome]
    rfl
  have hreactions : st'.promises.reactions = st.promises.reactions := by rw [hpromises, Promises.settle_reactions]
  refine h.of_saves hsaves (fun {p} hp => (hdone p).2 (.inr hp)) ?_ ?_ ?_ ?_ ?_ ?_ ?_ ?_
  · rw [hreactions]
    exact fun _ hmem => hmem
  · rw [hreactions]
    exact fun _ _ hmem => hmem
  · rw [hreactions]
    exact fun _ hmem => .inr hmem
  · intro j hj
    rcases (hdone _).1 hj with heq | hj
    · cases heq
      exact .inr ⟨s, hs, hsent⟩
    · exact .inl hj
  · intro j hj
    rcases (hdone _).1 hj with heq | hj
    · cases heq
    · exact .inl hj
  · rw [hlast]
    exact fun _ _ hq => hq
  · rw [hlast]
    exact fun _ hnone => .inl hnone
  · rw [hreactions]
    exact h.nodup

/-- Settling the promise of a reaction with the one its handler returned. -/
theorem Serial.adopted (h : Serial st) {id : Nat} (hwriting : st.Done (.writing id)) (outcome : Outcome)
    (hsaves : st'.saves = st.saves) (hlast : st'.last = st.last) (hpromises : st'.promises =
      ({ st.promises with reactions := st.promises.reactions.erase (.writing id, .adopt id) } :
        Promises SavePromise SaveJob).settle (.save id) outcome) : Serial st' := by
  have hdone : ∀ p, st'.Done p ↔ p = .save id ∨ st.Done p := by
    intro p
    rw [Host.Done, hpromises, Promises.settle_isSome]
    rfl
  have hmem : ∀ q job, (q, job) ∈ st'.promises.reactions ↔
      (q, job) ∈ st.promises.reactions ∧ ¬ (q = .writing id ∧ job = .adopt id) := by
    intro q job
    rw [hpromises, Promises.settle_reactions]
    exact Promises.mem_erase h.nodup
  refine h.of_saves hsaves (fun {p} hp => (hdone p).2 (.inr hp)) ?_ ?_ ?_ ?_ ?_ ?_ ?_ ?_
  · exact fun reaction hjob => ((hmem _ _).1 hjob).1
  · exact fun q j hjob => (hmem _ _).2 ⟨hjob, fun heq => SaveJob.noConfusion heq.2⟩
  · intro j hjob
    by_cases hid : j = id
    · exact .inl ((hdone _).2 (.inl (by rw [hid])))
    · exact .inr ((hmem _ _).2 ⟨hjob, fun heq => hid (SaveJob.adopt.inj heq.2)⟩)
  · intro j hj
    rcases (hdone _).1 hj with heq | hj
    · cases heq
    · exact .inl hj
  · intro j hj
    rcases (hdone _).1 hj with heq | hj
    · cases heq
      exact .inr hwriting
    · exact .inl hj
  · rw [hlast]
    exact fun _ _ hq => hq
  · rw [hlast]
    exact fun _ hnone => .inl hnone
  · rw [hpromises, Promises.settle_reactions]
    exact h.nodup.erase _

/-- The map forgets a kind whose last call is done. -/
theorem Serial.cleared (h : Serial st) {p : SavePromise} {id : Nat} {s : Save V} (hdone : st.Done p)
    (hsaves : st'.saves = st.saves)
    (hlast : st'.last = if st.last s.kind = some p then Function.update st.last s.kind none else st.last)
    (hpromises : st'.promises = { st.promises with reactions := st.promises.reactions.erase (p, .clear id) }) :
    Serial st' := by
  have hsame : ∀ q, st'.Done q ↔ st.Done q := fun q => by rw [Host.Done, hpromises, Host.Done]
  have hmem : ∀ q job, (q, job) ∈ st'.promises.reactions ↔
      (q, job) ∈ st.promises.reactions ∧ ¬ (q = p ∧ job = .clear id) := by
    intro q job
    rw [hpromises]
    exact Promises.mem_erase h.nodup
  have hkeep : ∀ kind, st'.last kind = st.last kind ∨ st'.last kind = none ∧ kind = s.kind ∧
      st.last s.kind = some p := by
    intro kind
    rw [hlast]
    split
    · next heq =>
      by_cases hk : kind = s.kind
      · exact .inr ⟨by rw [hk, Function.update_self], hk, heq⟩
      · exact .inl (Function.update_of_ne hk _ _)
    · exact .inl rfl
  refine h.of_saves hsaves (hsame _).2 ?_ ?_ ?_ (fun j hj => .inl ((hsame _).1 hj)) (fun j hj => .inl ((hsame _).1 hj))
    ?_ ?_ ?_
  · exact fun reaction hjob => ((hmem _ _).1 hjob).1
  · exact fun q j hjob => (hmem _ _).2 ⟨hjob, fun heq => SaveJob.noConfusion heq.2⟩
  · exact fun j hjob => .inr ((hmem _ _).2 ⟨hjob, fun heq => SaveJob.noConfusion heq.2⟩)
  · intro kind q hq
    rcases hkeep kind with heq | ⟨hnone, -, -⟩
    · exact heq ▸ hq
    · rw [hnone] at hq
      cases hq
  · intro kind hnone
    rcases hkeep kind with heq | ⟨-, rfl, hp⟩
    · exact .inl (heq ▸ hnone)
    · -- the last call of the kind is done, and so are those before it
      obtain ⟨j, t, hj, htkind, rfl, hafter⟩ := h.last_some _ p hp
      refine .inr fun i u hi hkind => ?_
      rcases Nat.lt_trichotomy i j with hlt | rfl | hgt
      · exact h.order i j u t hlt hi hj (hkind.trans htkind.symm) (h.done hj hdone).2
      · cases hi.symm.trans hj
        exact hdone
      · exact absurd hkind (hafter i u hgt hi)
  · rw [hpromises]
    exact h.nodup.erase _

/-- The write of a call whose turn has come. -/
theorem Serial.written (h : Serial st) {p : SavePromise} {id : Nat} {s : Save V} (hs : st.saves[id]? = some s)
    (hjob : (p, .write id) ∈ st.promises.reactions) (hdone : st.Done p) (version : Option V)
    (hsaves : st'.saves = st.saves.set id { s with sent := some version }) (hlast : st'.last = st.last)
    (hpromises : st'.promises = ({ st.promises with reactions := st.promises.reactions.erase (p, .write id) } :
        Promises SavePromise SaveJob).andThen (.writing id) (.adopt id)) : Serial st' := by
  have hsame : ∀ q, st'.Done q ↔ st.Done q := fun q => by
    rw [Host.Done, hpromises, Promises.andThen_outcome, Host.Done]
  have hmem : ∀ q job, (q, job) ∈ st'.promises.reactions ↔
      (q, job) ∈ st.promises.reactions ∧ ¬ (q = p ∧ job = .write id) ∨ q = .writing id ∧ job = .adopt id := by
    intro q job
    rw [hpromises, Promises.mem_andThen]
    exact or_congr_left (Promises.mem_erase h.nodup)
  obtain ⟨s', hs', hunsent, hprevious⟩ := h.write p id hjob
  cases hs.symm.trans hs'
  -- the calls are those of before, but for the version of this one
  have hget : ∀ j t, st'.saves[j]? = some t → ∃ u, st.saves[j]? = some u ∧ t.kind = u.kind ∧
      t.previous = u.previous ∧ t.promise j = u.promise j ∧ (j ≠ id → t = u) := by
    intro j t hj
    rw [hsaves] at hj
    by_cases hid : j = id
    · subst hid
      rw [List.getElem?_set_self (List.getElem?_eq_some_iff.1 hs).1] at hj
      cases hj
      exact ⟨s, hs, rfl, rfl, rfl, fun hne => absurd rfl hne⟩
    · rw [List.getElem?_set_ne (Ne.symm hid)] at hj
      exact ⟨t, hj, rfl, rfl, rfl, fun _ => rfl⟩
  have hput : ∀ j u, st.saves[j]? = some u → ∃ t, st'.saves[j]? = some t ∧ t.kind = u.kind ∧
      t.promise j = u.promise j ∧ t.previous = u.previous ∧ (u.sent ≠ none ∨ j = id → t.sent ≠ none) ∧
      (j ≠ id → t = u) := by
    intro j u hj
    rw [hsaves]
    by_cases hid : j = id
    · subst hid
      cases hs.symm.trans hj
      exact ⟨{ s with sent := some version }, List.getElem?_set_self (List.getElem?_eq_some_iff.1 hs).1, rfl, rfl, rfl,
        fun _ => Option.some_ne_none _, fun hne => absurd rfl hne⟩
    · rw [List.getElem?_set_ne (Ne.symm hid)]
      exact ⟨u, hj, rfl, rfl, rfl, fun hor => hor.resolve_right hid, fun _ => rfl⟩
  constructor
  · intro i j t u hij hi hj hkind hsent
    obtain ⟨t₀, hi₀, htk, -, htp, -⟩ := hget i t hi
    obtain ⟨u₀, hj₀, huk, -, -, hu⟩ := hget j u hj
    rw [hsame, htp]
    have hkind₀ : t₀.kind = u₀.kind := htk.symm.trans (hkind.trans huk)
    by_cases hid : j = id
    · subst hid
      cases hs.symm.trans hj₀
      exact h.all_done hs hprevious hdone hij hi₀ hkind₀
    · exact h.order i j t₀ u₀ hij hi₀ hj₀ hkind₀ (hu hid ▸ hsent)
  · intro j t q hj hq
    obtain ⟨t₀, hj₀, htk, htq, -, -⟩ := hget j t hj
    obtain ⟨i, u₀, hij, hi₀, huk, rfl, hbetween⟩ := h.previous j t₀ q hj₀ (htq.symm.trans hq)
    obtain ⟨u, hi, hk, hp, -, -⟩ := hput i u₀ hi₀
    refine ⟨i, u, hij, hi, hk.trans (huk.trans htk.symm), hp.symm, fun k w hik hkj hw => ?_⟩
    obtain ⟨w₀, hw₀, hwk, -⟩ := hget k w hw
    rw [hwk, htk]
    exact hbetween k w₀ hik hkj hw₀
  · intro j t hj hwait
    obtain ⟨t₀, hj₀, -, htq, -, ht⟩ := hget j t hj
    have hid : j ≠ id := by
      rintro rfl
      rw [hsaves, List.getElem?_set_self (List.getElem?_eq_some_iff.1 hs).1] at hj
      cases hj
      cases hwait
    obtain ⟨q, hq, hwrite⟩ := h.waits j t₀ hj₀ (ht hid ▸ hwait)
    exact ⟨q, htq.trans hq, (hmem _ _).2 (.inl ⟨hwrite, fun heq => hid (SaveJob.write.inj heq.2)⟩)⟩
  · intro q j hwrite
    rcases (hmem _ _).1 hwrite with ⟨hold, hne⟩ | ⟨-, heq⟩
    · obtain ⟨t₀, hj₀, hwait, hq⟩ := h.write q j hold
      have hid : j ≠ id := by
        rintro rfl
        cases hs.symm.trans hj₀
        exact hne ⟨Option.some.inj (hq.symm.trans hprevious), rfl⟩
      obtain ⟨t, hj, -, -, -, -, ht⟩ := hput j t₀ hj₀
      exact ⟨t, hj, by rw [ht hid]; exact hwait, by rw [ht hid]; exact hq⟩
    · cases heq
  · intro j t hj hprev hsent
    obtain ⟨t₀, hj₀, -, htq, -, ht⟩ := hget j t hj
    by_cases hid : j = id
    · exact .inr ((hmem _ _).2 (.inr (by rw [hid]; exact ⟨rfl, rfl⟩)))
    · refine (h.adopts j t₀ hj₀ (htq ▸ hprev) (ht hid ▸ hsent)).imp (hsame _).2 fun hadopt => ?_
      exact (hmem _ _).2 (.inl ⟨hadopt, fun heq => SaveJob.noConfusion heq.2⟩)
  · intro q j hadopt
    rcases (hmem _ _).1 hadopt with ⟨hold, -⟩ | ⟨rfl, heq⟩
    · obtain ⟨hq, t₀, hj₀, hsent⟩ := h.adopt q j hold
      obtain ⟨t, hj, -, -, -, ht, -⟩ := hput j t₀ hj₀
      exact ⟨hq, t, hj, ht (.inl hsent)⟩
    · cases heq
      obtain ⟨t, hj, -, -, -, ht, -⟩ := hput id s hs
      exact ⟨rfl, t, hj, ht (.inr rfl)⟩
  · intro j hj
    obtain ⟨t₀, hj₀, hsent⟩ := h.writing j ((hsame _).1 hj)
    obtain ⟨t, hj, -, -, -, ht, -⟩ := hput j t₀ hj₀
    exact ⟨t, hj, ht (.inl hsent)⟩
  · exact fun j hj => (hsame _).2 (h.saved j ((hsame _).1 hj))
  · intro q j hclear
    rcases (hmem _ _).1 hclear with ⟨hold, -⟩ | ⟨-, heq⟩
    · obtain ⟨t₀, hj₀, rfl⟩ := h.clear q j hold
      obtain ⟨t, hj, -, hp, -⟩ := hput j t₀ hj₀
      exact ⟨t, hj, hp.symm⟩
    · cases heq
  · intro kind q hq
    rw [hlast] at hq
    obtain ⟨j, t₀, hj₀, hkind, rfl, hafter⟩ := h.last_some kind q hq
    obtain ⟨t, hj, hk, hp, -⟩ := hput j t₀ hj₀
    refine ⟨j, t, hj, hk.trans hkind, hp.symm, fun i u hij hi => ?_⟩
    obtain ⟨u₀, hi₀, huk, -⟩ := hget i u hi
    rw [huk]
    exact hafter i u₀ hij hi₀
  · intro kind hnone i u hi hkind
    rw [hlast] at hnone
    obtain ⟨u₀, hi₀, huk, -, hp, -⟩ := hget i u hi
    rw [hsame, hp]
    exact h.last_none kind hnone i u₀ hi₀ (huk.symm.trans hkind)
  · rw [hpromises]
    refine Promises.andThen_nodup (h.nodup.erase _) fun hadopt => ?_
    obtain ⟨-, t₀, hj₀, hsent⟩ := h.adopt _ id (List.mem_of_mem_erase hadopt)
    cases hs.symm.trans hj₀
    exact hsent hunsent

/-- A call, chained to the one that its kind's entry of the map names; sent at once where there is none. -/
theorem Serial.called (h : Serial st) {new : Save V} (hprevious : new.previous = st.last new.kind)
    (hsent : new.sent = none ↔ new.previous.isSome) (hsaves : st'.saves = st.saves ++ [new])
    (hlast : st'.last = Function.update st.last new.kind (some (new.promise st.saves.length)))
    (houtcome : st'.promises.outcome = st.promises.outcome)
    (hmem : ∀ q job, (q, job) ∈ st'.promises.reactions ↔ (q, job) ∈ st.promises.reactions ∨
      new.previous = some q ∧ job = .write st.saves.length ∨
      q = new.promise st.saves.length ∧ job = .clear st.saves.length)
    (hnodup : st'.promises.reactions.Nodup) : Serial st' := by
  have hsame : ∀ q, st'.Done q ↔ st.Done q := fun q => by rw [Host.Done, houtcome, Host.Done]
  have hlt : ∀ {j} {t : Save V}, st.saves[j]? = some t → j < st.saves.length := fun hj =>
    (List.getElem?_eq_some_iff.1 hj).1
  have hget : ∀ j t, st'.saves[j]? = some t ↔ st.saves[j]? = some t ∨ j = st.saves.length ∧ t = new := fun j t => by
    rw [hsaves, getElem?_concat_eq_some]
  have hold : ∀ {j} {t : Save V}, st.saves[j]? = some t → st'.saves[j]? = some t := fun hj => (hget _ _).2 (.inl hj)
  have hnew : st'.saves[st.saves.length]? = some new := (hget _ _).2 (.inr ⟨rfl, rfl⟩)
  constructor
  · intro i j s t hij hi hj hkind hsent'
    rw [hsame]
    rcases (hget j t).1 hj with hj | ⟨rfl, rfl⟩
    · have hi := ((hget i s).1 hi).resolve_right fun ⟨heq, _⟩ => by have := hlt hj; omega
      exact h.order i j s t hij hi hj hkind hsent'
    · have hi := ((hget i s).1 hi).resolve_right fun ⟨heq, _⟩ => by omega
      have hnone : st.last t.kind = none := by
        rw [← hprevious, ← Option.not_isSome_iff_eq_none, ← hsent]
        exact hsent'
      exact h.last_none _ hnone i s hi hkind
  · intro j t q hj hq
    rcases (hget j t).1 hj with hj | ⟨rfl, rfl⟩
    · obtain ⟨i, s, hij, hi, hkind, heq, hbetween⟩ := h.previous j t q hj hq
      refine ⟨i, s, hij, hold hi, hkind, heq, fun k u hik hkj hu => ?_⟩
      exact hbetween k u hik hkj (((hget k u).1 hu).resolve_right fun ⟨heq, _⟩ => by have := hlt hj; omega)
    · obtain ⟨i, s, hi, hkind, heq, hafter⟩ := h.last_some _ q (hprevious.symm.trans hq)
      refine ⟨i, s, hlt hi, hold hi, hkind, heq, fun k u hik hkj hu => ?_⟩
      exact hafter k u hik (((hget k u).1 hu).resolve_right fun ⟨heq, _⟩ => by omega)
  · intro j t hj hwait
    rcases (hget j t).1 hj with hj | ⟨rfl, rfl⟩
    · obtain ⟨q, hq, hwrite⟩ := h.waits j t hj hwait
      exact ⟨q, hq, (hmem _ _).2 (.inl hwrite)⟩
    · obtain ⟨q, hq⟩ := Option.isSome_iff_exists.1 (hsent.1 hwait)
      exact ⟨q, hq, (hmem _ _).2 (.inr (.inl ⟨hq, rfl⟩))⟩
  · intro q j hwrite
    rcases (hmem _ _).1 hwrite with hwrite | ⟨hq, heq⟩ | ⟨-, heq⟩
    · obtain ⟨t, hj, hwait, hq⟩ := h.write q j hwrite
      exact ⟨t, hold hj, hwait, hq⟩
    · cases heq
      exact ⟨new, hnew, hsent.2 (by rw [hq]; rfl), hq⟩
    · cases heq
  · intro j t hj hprev hsent'
    rcases (hget j t).1 hj with hj | ⟨rfl, rfl⟩
    · exact (h.adopts j t hj hprev hsent').imp (hsame _).2 fun hadopt => (hmem _ _).2 (.inl hadopt)
    · exact absurd (hsent.2 hprev) hsent'
  · intro q j hadopt
    rcases (hmem _ _).1 hadopt with hadopt | ⟨-, heq⟩ | ⟨-, heq⟩
    · obtain ⟨hq, t, hj, hsent'⟩ := h.adopt q j hadopt
      exact ⟨hq, t, hold hj, hsent'⟩
    · cases heq
    · cases heq
  · intro j hj
    obtain ⟨t, ht, hsent'⟩ := h.writing j ((hsame _).1 hj)
    exact ⟨t, hold ht, hsent'⟩
  · exact fun j hj => (hsame _).2 (h.saved j ((hsame _).1 hj))
  · intro q j hclear
    rcases (hmem _ _).1 hclear with hclear | ⟨-, heq⟩ | ⟨rfl, heq⟩
    · obtain ⟨t, hj, hq⟩ := h.clear q j hclear
      exact ⟨t, hold hj, hq⟩
    · cases heq
    · cases heq
      exact ⟨new, hnew, rfl⟩
  · intro kind q hq
    rw [hlast] at hq
    by_cases hkind : kind = new.kind
    · subst hkind
      rw [Function.update_self] at hq
      cases hq
      refine ⟨st.saves.length, new, hnew, rfl, rfl, fun i u hij hi => ?_⟩
      rcases (hget i u).1 hi with hi | ⟨heq, -⟩
      · have := hlt hi
        omega
      · omega
    · rw [Function.update_of_ne hkind] at hq
      obtain ⟨j, t, hj, htkind, heq, hafter⟩ := h.last_some kind q hq
      refine ⟨j, t, hold hj, htkind, heq, fun i u hij hi => ?_⟩
      rcases (hget i u).1 hi with hi | ⟨-, rfl⟩
      · exact hafter i u hij hi
      · exact Ne.symm hkind
  · intro kind hnone i u hi hukind
    rw [hlast] at hnone
    have hkind : kind ≠ new.kind := by
      rintro rfl
      rw [Function.update_self] at hnone
      cases hnone
    rw [Function.update_of_ne hkind] at hnone
    rcases (hget i u).1 hi with hi | ⟨-, rfl⟩
    · exact (hsame _).2 (h.last_none kind hnone i u hi hukind)
    · exact absurd hukind.symm hkind
  · exact hnodup

/-- No reaction is a new call's. -/
theorem Serial.fresh (h : Serial st) (q : SavePromise) : (q, .write st.saves.length) ∉ st.promises.reactions ∧
    (q, .clear st.saves.length) ∉ st.promises.reactions := by
  have hnone : st.saves[st.saves.length]? = none := List.getElem?_eq_none_iff.2 (Nat.le_refl _)
  constructor
  · intro hwrite
    obtain ⟨t, ht, -⟩ := h.write q _ hwrite
    rw [hnone] at ht
    cases ht
  · intro hclear
    obtain ⟨t, ht, -⟩ := h.clear q _ hclear
    rw [hnone] at ht
    cases ht

theorem Serial.saveDocument (h : Serial st) (kind : DocumentKind) (json : String) :
    Serial (st.saveDocument kind json) := by
  unfold Host.saveDocument
  dsimp only
  split
  · next previous hlast =>
    have hcalled := @Serial.called V st { st with
      saves := st.saves ++ [⟨kind, json, some previous, none⟩]
      promises := (st.promises.andThen previous (.write st.saves.length)).andThen (.save st.saves.length)
        (.clear st.saves.length)
      last := Function.update st.last kind (some (.save st.saves.length)) } h ⟨kind, json, some previous, none⟩
    refine hcalled hlast.symm ⟨fun _ => rfl, fun _ => rfl⟩ rfl rfl rfl ?_ ?_
    · intro q job
      simp [Save.promise, or_assoc, eq_comm]
    · refine Promises.andThen_nodup (Promises.andThen_nodup h.nodup (h.fresh _).1) ?_
      rw [Promises.mem_andThen, not_or]
      exact ⟨(h.fresh _).2, fun heq => SaveJob.noConfusion heq.2⟩
  · next hlast =>
    have hcalled := @Serial.called V st { st with
      saves := st.saves ++ [⟨kind, json, none, some (st.versions kind)⟩]
      wire := st.wire ++ [.put st.saves.length kind json (st.versions kind)]
      promises := st.promises.andThen (.writing st.saves.length) (.clear st.saves.length)
      last := Function.update st.last kind (some (.writing st.saves.length)) } h
      ⟨kind, json, none, some (st.versions kind)⟩
    refine hcalled hlast.symm (by simp) rfl rfl rfl ?_ ?_
    · intro q job
      simp [Save.promise]
    · exact Promises.andThen_nodup h.nodup (h.fresh _).2

/-- The versions after an answer to a request that carried `sent`. -/
def Answer.versions (a : Answer V) (kind : DocumentKind) (sent : Option V) (versions : DocumentKind → Option V) :
    DocumentKind → Option V :=
  match a with
  | .ok version => Function.update versions kind (version.or sent)
  | .failed => versions

/-- The request that an answer is for was sent and is not settled; the answer settles it, and an acknowledgement names
the version of the next. -/
theorem answer_eq_some {id : Nat} {a : Answer V} (ha : st.answer id a = some st') : ∃ s sent, st.saves[id]? = some s ∧
    s.sent = some sent ∧ ¬ st.Done (.writing id) ∧ ∃ outcome, st' = { st with
      versions := a.versions s.kind sent st.versions
      promises := st.promises.settle (.writing id) outcome
      wire := st.wire ++ [.answer id s.kind a] } := by
  unfold Host.answer at ha
  obtain ⟨s, hs, ha⟩ := Option.bind_eq_some_iff.1 ha
  obtain ⟨sent, hsent, ha⟩ := Option.bind_eq_some_iff.1 ha
  split at ha
  · cases ha
  · next hpending =>
    refine ⟨s, sent, hs, hsent, hpending, ?_⟩
    cases a with
    | ok version =>
      cases ha
      exact ⟨.fulfilled, rfl⟩
    | failed =>
      cases ha
      exact ⟨.rejected, rfl⟩

/-- What a job does. -/
theorem react_eq_some {p : SavePromise} {job : SaveJob} (hreact : st.react p job = some st') :
    ∃ outcome, (p, job) ∈ st.promises.reactions ∧ st.promises.outcome p = some outcome ∧
    (let rest : Promises SavePromise SaveJob := { st.promises with reactions := st.promises.reactions.erase (p, job) }
    (∃ id s, job = .write id ∧ st.saves[id]? = some s ∧
      st' = { st.write id s with promises := rest.andThen (.writing id) (.adopt id) }) ∨
    (∃ id, job = .adopt id ∧ st' = { st with promises := rest.settle (.save id) outcome }) ∨
    ∃ id s, job = .clear id ∧ st.saves[id]? = some s ∧ st' = { st with
      promises := rest
      last := if st.last s.kind = some p then Function.update st.last s.kind none else st.last }) := by
  unfold Host.react at hreact
  obtain ⟨⟨outcome, promises⟩, htake, hreact⟩ := Option.bind_eq_some_iff.1 hreact
  obtain ⟨hmem, hp, rfl⟩ := Promises.take_eq_some htake
  refine ⟨outcome, hmem, hp, ?_⟩
  cases job with
  | write id =>
    obtain ⟨s, hs, rfl⟩ := Option.map_eq_some_iff.1 hreact
    exact .inl ⟨id, s, rfl, hs, rfl⟩
  | adopt id =>
    cases hreact
    exact .inr (.inl ⟨id, rfl, rfl⟩)
  | clear id =>
    obtain ⟨s, hs, rfl⟩ := Option.map_eq_some_iff.1 hreact
    exact .inr (.inr ⟨id, s, rfl, hs, rfl⟩)

theorem Host.Done.of_outcome {p : SavePromise} {outcome : Outcome} (hp : st.promises.outcome p = some outcome) :
    st.Done p := by
  rw [Host.Done, hp]
  rfl

/-- Every step keeps the shape. -/
theorem Serial.step (h : Serial st) {e : SaveEvent V} (hstep : (page loaded).step st e = some st') : Serial st' := by
  cases e with
  | call kind json =>
    cases hstep
    exact h.saveDocument kind json
  | answer id a =>
    obtain ⟨s, sent, hs, hsent, -, outcome, rfl⟩ := answer_eq_some hstep
    exact h.settle_writing hs (by simp [hsent]) outcome rfl rfl rfl
  | react p job =>
    obtain ⟨outcome, hmem, hp, ⟨id, s, rfl, hs, rfl⟩ | ⟨id, rfl, rfl⟩ | ⟨id, s, rfl, hs, rfl⟩⟩ := react_eq_some hstep
    · exact h.written hs hmem (.of_outcome hp) (st.versions s.kind) rfl rfl rfl
    · obtain ⟨rfl, -⟩ := h.adopt p id hmem
      exact h.adopted (.of_outcome hp) outcome rfl rfl rfl
    · exact h.cleared (.of_outcome hp) rfl rfl rfl

theorem serial (h : (page loaded).Reach System.free st) : Serial st := by
  refine h.invariant ?_ fun _ _ _ _ ih _ hstep => ih.step hstep
  rintro _ rfl
  exact serial_init loaded

end

/-! ## What goes over the wire -/

def Wire.putOf (kind : DocumentKind) : Wire V → Option Nat
  | .put id k _ _ => if k = kind then some id else none
  | .answer .. => none

def Wire.answers (id : Nat) : Wire V → Bool
  | .put .. => false
  | .answer i _ _ => i == id

/-- The calls of the kind, by the order they were made in. -/
def Host.calls (st : Host V) (kind : DocumentKind) : List Nat :=
  (List.range st.saves.length).filter fun id => (st.saves[id]?).any (·.kind = kind)

/-- The requests of the kind, in the order they were sent in, each by its call. -/
def Host.puts (st : Host V) (kind : DocumentKind) : List Nat := st.wire.filterMap (Wire.putOf kind)

def Host.inFlight (st : Host V) (kind : DocumentKind) : List Nat :=
  (st.puts kind).filter fun id => !st.wire.any (Wire.answers id)

def acknowledge (kind : DocumentKind) (version : Option V) : Wire V → Option V
  | .answer _ k (.ok (some named)) => if k = kind then some named else version
  | .answer _ _ (.ok none) | .answer _ _ .failed | .put .. => version

/-- The version that the last answer to name one did, the loaded one before any. -/
def lastAcknowledged (loaded : DocumentKind → Option V) (kind : DocumentKind) (wire : List (Wire V)) : Option V :=
  wire.foldl (acknowledge kind) (loaded kind)

/-- The wire as the host's state has it. -/
structure Wired (loaded : DocumentKind → Option V) (st : Host V) : Prop where
  puts : ∀ id kind json version, .put id kind json version ∈ st.wire ↔ ∃ s : Save V, st.saves[id]? = some s ∧
    s.kind = kind ∧ s.json = json ∧ s.sent = some version
  answers : ∀ id, st.wire.any (Wire.answers id) = true ↔ st.Done (.writing id)
  sorted : ∀ kind, (st.puts kind).Pairwise (· < ·)
  versions : ∀ kind, st.versions kind = lastAcknowledged loaded kind st.wire
  /-- A request that waits for its answer carries the version that the shell still has. -/
  waiting : ∀ id (s : Save V) version, st.saves[id]? = some s → s.sent = some version → ¬ st.Done (.writing id) →
    version = st.versions s.kind
  carries : ∀ before after id kind json version, st.wire = before ++ .put id kind json version :: after →
    version = lastAcknowledged loaded kind before

section
variable {st st' : Host V} {loaded : DocumentKind → Option V} {kind : DocumentKind} {id : Nat}

theorem lastAcknowledged_append (wire : List (Wire V)) (w : Wire V) :
    lastAcknowledged loaded kind (wire ++ [w]) = acknowledge kind (lastAcknowledged loaded kind wire) w := by
  rw [lastAcknowledged, List.foldl_append]
  rfl

theorem mem_puts : id ∈ st.puts kind ↔ ∃ json version, .put id kind json version ∈ st.wire := by
  unfold Host.puts
  rw [List.mem_filterMap]
  constructor
  · rintro ⟨w, hw, hput⟩
    cases w with
    | put i k json version =>
      obtain ⟨rfl, heq⟩ := Option.ite_none_right_eq_some.1 hput
      cases heq
      exact ⟨json, version, hw⟩
    | answer => cases hput
  · rintro ⟨json, version, hw⟩
    exact ⟨_, hw, if_pos rfl⟩

theorem mem_calls : id ∈ st.calls kind ↔ ∃ s, st.saves[id]? = some s ∧ s.kind = kind := by
  unfold Host.calls
  rw [List.mem_filter, List.mem_range, Option.any_eq_true]
  constructor
  · rintro ⟨-, s, hs, hkind⟩
    exact ⟨s, hs, of_decide_eq_true hkind⟩
  · rintro ⟨s, hs, hkind⟩
    exact ⟨(List.getElem?_eq_some_iff.1 hs).1, s, hs, decide_eq_true hkind⟩

theorem calls_sorted : (st.calls kind).Pairwise (· < ·) := List.pairwise_lt_range.filter _

/-- The requests sent are those of the calls that carry a version. -/
theorem Wired.mem_puts (hw : Wired loaded st) : id ∈ st.puts kind ↔ ∃ s, st.saves[id]? = some s ∧ s.kind = kind ∧
    s.sent ≠ none := by
  rw [SaveQueue.mem_puts]
  constructor
  · rintro ⟨json, version, hput⟩
    obtain ⟨s, hs, hkind, -, hsent⟩ := (hw.puts ..).1 hput
    exact ⟨s, hs, hkind, by simp [hsent]⟩
  · rintro ⟨s, hs, hkind, hsent⟩
    obtain ⟨version, hversion⟩ := Option.ne_none_iff_exists'.1 hsent
    exact ⟨s.json, version, (hw.puts ..).2 ⟨s, hs, hkind, rfl, hversion⟩⟩

theorem wired_init (loaded : DocumentKind → Option V) : Wired loaded ⟨[], fun _ => none, loaded, .empty, []⟩ := by
  constructor <;> simp [Host.Done, Promises.empty, Host.puts, lastAcknowledged]

/-- Where nothing is sent or answered. -/
theorem Wired.same (hw : Wired loaded st) (hwire : st'.wire = st.wire) (hversions : st'.versions = st.versions)
    (hsent : ∀ (id : Nat) (s : Save V) version, st'.saves[id]? = some s ∧ s.sent = some version ↔
      st.saves[id]? = some s ∧ s.sent = some version)
    (hdone : ∀ id, st'.Done (.writing id) ↔ st.Done (.writing id)) : Wired loaded st' where
  puts id kind json version := by
    rw [hwire, hw.puts]
    refine exists_congr fun s => ?_
    have := hsent id s version
    tauto
  answers id := by rw [hwire, hdone, hw.answers]
  sorted kind := by
    rw [Host.puts, hwire]
    exact hw.sorted kind
  versions kind := by rw [hversions, hwire, hw.versions]
  waiting id s version hs hsend hwait := by
    obtain ⟨hs, hsend⟩ := (hsent ..).1 ⟨hs, hsend⟩
    rw [hversions]
    exact hw.waiting id s version hs hsend (mt (hdone id).2 hwait)
  carries := by
    rw [hwire]
    exact hw.carries

/-- The place of an entry in a log that is one longer. -/
theorem append_singleton_eq {w w' : Wire V} {wire before after : List (Wire V)}
    (h : wire ++ [w] = before ++ w' :: after) : (wire = before ∧ w = w') ∨ ∃ rest, wire = before ++ w' :: rest := by
  rcases List.eq_nil_or_concat after with rfl | ⟨rest, last, rfl⟩
  · obtain ⟨hwire, hlast⟩ := List.append_inj' h rfl
    cases hlast
    exact .inl ⟨hwire, rfl⟩
  · refine .inr ⟨rest, ?_⟩
    rw [List.concat_eq_append, ← List.cons_append, ← List.append_assoc] at h
    exact (List.append_inj' h rfl).1

/-- A request, of a call that comes after those of its kind that were sent. -/
theorem Wired.put (hw : Wired loaded st) {s : Save V}
    (hlater : ∀ i t, st.saves[i]? = some t → t.kind = s.kind → t.sent ≠ none → i < id)
    (hwire : st'.wire = st.wire ++ [.put id s.kind s.json (st.versions s.kind)])
    (hversions : st'.versions = st.versions)
    (hsent : ∀ i t version, st'.saves[i]? = some t ∧ t.sent = some version ↔
      st.saves[i]? = some t ∧ t.sent = some version ∨
      i = id ∧ t = { s with sent := some (st.versions s.kind) } ∧ version = st.versions s.kind)
    (hdone : ∀ i, st'.Done (.writing i) ↔ st.Done (.writing i)) : Wired loaded st' where
  puts i kind json version := by
    rw [hwire, List.mem_append, List.mem_singleton, hw.puts]
    constructor
    · rintro (⟨t, ht, hkind, hjson, hversion⟩ | heq)
      · obtain ⟨ht, hversion⟩ := (hsent ..).2 (.inl ⟨ht, hversion⟩)
        exact ⟨t, ht, hkind, hjson, hversion⟩
      · cases heq
        obtain ⟨ht, hversion⟩ := (hsent id _ _).2 (.inr ⟨rfl, rfl, rfl⟩)
        exact ⟨_, ht, rfl, rfl, hversion⟩
    · rintro ⟨t, ht, rfl, rfl, hversion⟩
      rcases (hsent ..).1 ⟨ht, hversion⟩ with ⟨ht, hversion⟩ | ⟨rfl, rfl, rfl⟩
      · exact .inl ⟨t, ht, rfl, rfl, hversion⟩
      · exact .inr rfl
  answers i := by
    rw [hwire, List.any_append, hdone, ← hw.answers]
    simp [Wire.answers]
  sorted kind := by
    have hlist : st'.puts kind = st.puts kind ++ if s.kind = kind then [id] else [] := by
      rw [Host.puts, hwire, List.filterMap_append]
      split
      · next hkind => exact congrArg _ (List.filterMap_cons_some (if_pos hkind))
      · next hkind => exact congrArg _ (List.filterMap_cons_none (if_neg hkind))
    rw [hlist]
    split
    · next hkind =>
      refine List.pairwise_append.2 ⟨hw.sorted kind, List.pairwise_singleton _ _, fun i hi j hj => ?_⟩
      obtain ⟨t, ht, htkind, hsend⟩ := hw.mem_puts.1 hi
      rw [List.mem_singleton.1 hj]
      exact hlater i t ht (htkind.trans hkind.symm) hsend
    · rw [List.append_nil]
      exact hw.sorted kind
  versions kind := by
    rw [hversions, hwire, lastAcknowledged_append, hw.versions]
    rfl
  waiting i t version ht hversion hwait := by
    rw [hversions]
    rcases (hsent ..).1 ⟨ht, hversion⟩ with ⟨ht, hversion⟩ | ⟨rfl, rfl, rfl⟩
    · exact hw.waiting i t version ht hversion (mt (hdone i).2 hwait)
    · rfl
  carries before after i kind json version heq := by
    rcases append_singleton_eq (hwire.symm.trans heq) with ⟨rfl, hlast⟩ | ⟨rest, hrest⟩
    · cases hlast
      exact hw.versions s.kind
    · exact hw.carries before rest i kind json version hrest

/-- An answer, to the one request of its kind that waits for one. -/
theorem Wired.answer (hw : Wired loaded st) {s : Save V} {sent : Option V} {a : Answer V}
    (hs : st.saves[id]? = some s) (hsent : s.sent = some sent) (hwait : ¬ st.Done (.writing id))
    (hone : ∀ i t, st.saves[i]? = some t → t.kind = s.kind → t.sent ≠ none → ¬ st.Done (.writing i) → i = id)
    (hwire : st'.wire = st.wire ++ [.answer id s.kind a]) (hsaves : st'.saves = st.saves)
    (hversions : st'.versions = a.versions s.kind sent st.versions)
    (hdone : ∀ i, st'.Done (.writing i) ↔ i = id ∨ st.Done (.writing i)) : Wired loaded st' where
  puts i kind json version := by
    rw [hwire, List.mem_append, List.mem_singleton, hsaves, hw.puts, or_iff_left (fun heq => by cases heq)]
  answers i := by
    rw [hwire, List.any_append, Bool.or_eq_true, hw.answers, hdone]
    rw [List.any_cons, List.any_nil, Bool.or_false, Wire.answers, beq_iff_eq, or_comm, @eq_comm _ id]
  sorted kind := by
    rw [Host.puts, hwire, List.filterMap_append]
    exact (List.append_nil (st.puts kind)).symm ▸ hw.sorted kind
  versions kind := by
    rw [hwire, lastAcknowledged_append, ← hw.versions, hversions]
    cases a with
    | failed => rfl
    | ok version =>
      by_cases hkind : s.kind = kind
      · subst hkind
        cases version with
        | some named => exact (Function.update_self ..).trans (if_pos rfl).symm
        | none => exact (Function.update_self ..).trans (hw.waiting id s sent hs hsent hwait)
      · rw [Answer.versions, Function.update_of_ne (Ne.symm hkind)]
        cases version with
        | some named => exact (if_neg hkind).symm
        | none => rfl
  waiting i t version ht hversion hpending := by
    rw [hsaves] at ht
    have hold := hw.waiting i t version ht hversion (fun hi => hpending ((hdone i).2 (.inr hi)))
    rw [hversions]
    cases a with
    | failed => exact hold
    | ok named =>
      -- the other kinds' versions stay
      have hkind : t.kind ≠ s.kind := fun hkind => hpending ((hdone i).2 (.inl (hone i t ht hkind (by simp [hversion])
        fun hi => hpending ((hdone i).2 (.inr hi)))))
      exact hold.trans (Function.update_of_ne hkind _ _).symm
  carries before after i kind json version heq := by
    rcases append_singleton_eq (hwire.symm.trans heq) with ⟨-, hlast⟩ | ⟨rest, hrest⟩
    · cases hlast
    · exact hw.carries before rest i kind json version hrest

/-- Of two requests of a kind, the earlier has been answered. -/
theorem Serial.one_waits (h : Serial st) {i j : Nat} {s t : Save V} (hs : st.saves[i]? = some s)
    (ht : st.saves[j]? = some t) (hkind : s.kind = t.kind) (hssent : s.sent ≠ none) (htsent : t.sent ≠ none)
    (hi : ¬ st.Done (.writing i)) (hj : ¬ st.Done (.writing j)) : i = j := by
  rcases Nat.lt_trichotomy i j with hlt | heq | hgt
  · exact absurd (h.done hs (h.order i j s t hlt hs ht hkind htsent)).1 hi
  · exact heq
  · exact absurd (h.done ht (h.order j i t s hgt ht hs hkind.symm hssent)).1 hj

/-- The calls before one that was sent were sent. -/
theorem Serial.sent_before (h : Serial st) {i j : Nat} {s t : Save V} (hs : st.saves[i]? = some s)
    (ht : st.saves[j]? = some t) (hkind : s.kind = t.kind) (hij : i < j) (hsent : t.sent ≠ none) : s.sent ≠ none :=
  (h.done hs (h.order i j s t hij hs ht hkind hsent)).2

theorem Wired.saveDocument (hw : Wired loaded st) (kind : DocumentKind) (json : String) :
    Wired loaded (st.saveDocument kind json) := by
  unfold Host.saveDocument
  dsimp only
  split
  · next previous hlast =>
    refine hw.same rfl rfl (fun i t version => ?_) fun i => Iff.rfl
    dsimp only
    rw [getElem?_concat_eq_some]
    constructor
    · rintro ⟨ht | ⟨-, rfl⟩, hversion⟩
      · exact ⟨ht, hversion⟩
      · cases hversion
    · exact fun ⟨ht, hversion⟩ => ⟨.inl ht, hversion⟩
  · next hlast =>
    refine @Wired.put V st _ loaded st.saves.length hw ⟨kind, json, none, none⟩ ?_ rfl rfl (fun i t version => ?_)
      fun i => Iff.rfl
    · exact fun i t ht _ _ => (List.getElem?_eq_some_iff.1 ht).1
    · dsimp only
      rw [getElem?_concat_eq_some]
      constructor
      · rintro ⟨ht | ⟨rfl, rfl⟩, hversion⟩
        · exact .inl ⟨ht, hversion⟩
        · cases hversion
          exact .inr ⟨rfl, rfl, rfl⟩
      · rintro (⟨ht, hversion⟩ | ⟨rfl, rfl, rfl⟩)
        · exact ⟨.inl ht, hversion⟩
        · exact ⟨.inr ⟨rfl, rfl⟩, rfl⟩

theorem Wired.step (hw : Wired loaded st) (h : Serial st) {e : SaveEvent V}
    (hstep : (page loaded).step st e = some st') : Wired loaded st' := by
  cases e with
  | call kind json =>
    cases hstep
    exact hw.saveDocument kind json
  | answer id a =>
    obtain ⟨s, sent, hs, hsent, hwait, outcome, rfl⟩ := answer_eq_some hstep
    have hne : s.sent ≠ none := by simp [hsent]
    refine hw.answer hs hsent hwait ?_ rfl rfl rfl fun i => ?_
    · exact fun i t ht hkind htsent hi => h.one_waits ht hs hkind htsent hne hi hwait
    · rw [Host.Done, Promises.settle_isSome, SavePromise.writing.injEq]
      rfl
  | react p job =>
    obtain ⟨outcome, hmem, hp, ⟨id, s, rfl, hs, rfl⟩ | ⟨id, rfl, rfl⟩ | ⟨id, s, rfl, hs, rfl⟩⟩ := react_eq_some hstep
    · obtain ⟨s', hs', hunsent, -⟩ := h.write p id hmem
      cases hs.symm.trans hs'
      refine @Wired.put V st _ loaded id hw s ?_ rfl rfl (fun i t version => ?_) fun i => Iff.rfl
      · intro i t ht hkind hsent
        rcases Nat.lt_trichotomy i id with hlt | rfl | hgt
        · exact hlt
        · cases hs.symm.trans ht
          exact absurd hunsent hsent
        · exact absurd hunsent (h.sent_before hs ht hkind.symm hgt hsent)
      · have hlt : id < st.saves.length := (List.getElem?_eq_some_iff.1 hs).1
        by_cases hid : i = id
        · subst hid
          rw [Host.write, List.getElem?_set_self hlt]
          constructor
          · rintro ⟨heq, hversion⟩
            cases heq
            cases hversion
            exact .inr ⟨rfl, rfl, rfl⟩
          · rintro (⟨ht, hversion⟩ | ⟨-, rfl, rfl⟩)
            · cases hs.symm.trans ht
              cases hunsent.symm.trans hversion
            · exact ⟨rfl, rfl⟩
        · rw [Host.write, List.getElem?_set_ne (Ne.symm hid)]
          exact ⟨.inl, fun hor => hor.resolve_right fun hnew => hid hnew.1⟩
    · refine hw.same rfl rfl (fun i t version => Iff.rfl) fun i => ?_
      rw [Host.Done, Promises.settle_isSome]
      exact or_iff_right fun heq => SavePromise.noConfusion heq
    · exact hw.same rfl rfl (fun i t version => Iff.rfl) fun i => Iff.rfl

theorem wired (h : (page loaded).Reach System.free st) : Wired loaded st := by
  refine h.invariant ?_ fun _ _ _ hreach ih _ hstep => ih.step (serial hreach) hstep
  rintro _ rfl
  exact wired_init loaded

/-! ## The queue moves on -/

def SaveJob.weight : SaveJob → Nat
  | .write _ => 2
  | .adopt _ | .clear _ => 1

/-- A bound on the jobs to come: a write leaves one more. -/
def Host.work (st : Host V) : Nat := (st.promises.reactions.map fun reaction => reaction.2.weight).sum

/-- No job can be taken. -/
def Host.Idle (st : Host V) : Prop := ∀ p job, st.react p job = none

/-- The jobs that are left when one is taken. -/
theorem work_erase {p : SavePromise} {job : SaveJob} (hmem : (p, job) ∈ st.promises.reactions) :
    job.weight + ((st.promises.reactions.erase (p, job)).map fun reaction => reaction.2.weight).sum = st.work := by
  have hperm := (List.perm_cons_erase hmem).map fun reaction : SavePromise × SaveJob => reaction.2.weight
  exact hperm.sum_nat.symm

theorem work_react {p : SavePromise} {job : SaveJob} (hreact : st.react p job = some st') : st'.work < st.work := by
  obtain ⟨outcome, hmem, -, hjob⟩ := react_eq_some hreact
  rw [← work_erase hmem]
  obtain ⟨id, s, rfl, -, rfl⟩ | ⟨id, rfl, rfl⟩ | ⟨id, s, rfl, -, rfl⟩ := hjob
  · -- the write registers the reaction that adopts its promise
    rw [Host.work, Promises.andThen, List.map_append, List.sum_append]
    simp [SaveJob.weight]
    omega
  · rw [Host.work, Promises.settle_reactions]
    exact Nat.lt_add_of_pos_left (Nat.succ_pos 0)
  · exact Nat.lt_add_of_pos_left (Nat.succ_pos 0)

/-- A reaction to a settled promise can be taken. -/
theorem Serial.busy (h : Serial st) {p : SavePromise} {job : SaveJob} (hmem : (p, job) ∈ st.promises.reactions)
    (hp : st.Done p) : st.react p job ≠ none := by
  obtain ⟨outcome, hp⟩ := Option.isSome_iff_exists.1 hp
  have htake := Promises.take_of_mem hmem hp
  unfold Host.react
  rw [htake]
  cases job with
  | write id =>
    obtain ⟨t, ht, -⟩ := h.write p id hmem
    simp [ht]
  | adopt id => simp
  | clear id =>
    obtain ⟨t, ht, -⟩ := h.clear p id hmem
    simp [ht]

/-- With no job left, and no request of the kind waiting, all its calls are sent. -/
theorem Serial.all_sent (h : Serial st) (hidle : st.Idle)
    (hanswered : ∀ i s, st.saves[i]? = some s → s.kind = kind → s.sent ≠ none → st.Done (.writing i)) (j : Nat) :
    ∀ t, st.saves[j]? = some t → t.kind = kind → t.sent ≠ none := by
  induction j using Nat.strongRecOn with
  | _ j ih =>
    intro t ht hkind hwait
    obtain ⟨q, hq, hwrite⟩ := h.waits j t ht hwait
    obtain ⟨i, s, hij, hs, hskind, rfl, -⟩ := h.previous j t q ht hq
    have hsent := ih i hij s hs (hskind.trans hkind)
    have hdone := hanswered i s hs (hskind.trans hkind) hsent
    refine h.busy hwrite ?_ (hidle _ _)
    by_cases hprev : s.previous.isSome
    · rw [Save.promise, if_pos hprev]
      exact (h.adopts i s hs hprev hsent).resolve_right fun hadopt => h.busy hadopt hdone (hidle _ _)
    · rw [Save.promise, if_neg hprev]
      exact hdone

theorem mem_inFlight (hw : Wired loaded st) : id ∈ st.inFlight kind ↔ id ∈ st.puts kind ∧ ¬ st.Done (.writing id) := by
  rw [Host.inFlight, List.mem_filter, ← hw.answers, Bool.not_eq_true', Bool.not_eq_true]

theorem inFlight_length (h : Serial st) (hw : Wired loaded st) : (st.inFlight kind).length ≤ 1 := by
  have hsorted : (st.inFlight kind).Pairwise (· < ·) := (hw.sorted kind).filter _
  refine Nat.le_of_not_lt fun hlen => ?_
  obtain ⟨i, j, rest, hlist⟩ : ∃ i j rest, st.inFlight kind = i :: j :: rest := by
    match hlist : st.inFlight kind, hlen with
    | i :: j :: rest, _ => exact ⟨i, j, rest, rfl⟩
  rw [hlist] at hsorted
  have hij : i < j := List.rel_of_pairwise_cons hsorted (List.mem_cons_self ..)
  obtain ⟨hi, hiwait⟩ := (mem_inFlight hw).1 (hlist ▸ List.mem_cons_self .. : i ∈ st.inFlight kind)
  obtain ⟨hj, hjwait⟩ := (mem_inFlight hw).1 (hlist ▸ .tail _ (List.mem_cons_self ..) : j ∈ st.inFlight kind)
  obtain ⟨s, hs, hskind, hssent⟩ := hw.mem_puts.1 hi
  obtain ⟨t, ht, htkind, htsent⟩ := hw.mem_puts.1 hj
  exact Nat.ne_of_lt hij (h.one_waits hs ht (hskind.trans htkind.symm) hssent htsent hiwait hjwait)

theorem puts_isPrefix (h : Serial st) (hw : Wired loaded st) : st.puts kind <+: st.calls kind := by
  refine isPrefix_of_downward (hw.sorted kind) calls_sorted ?_ ?_
  · intro i hi
    obtain ⟨s, hs, hkind, -⟩ := hw.mem_puts.1 hi
    exact mem_calls.2 ⟨s, hs, hkind⟩
  · intro i hi j hj hij
    obtain ⟨s, hs, hskind⟩ := mem_calls.1 hi
    obtain ⟨t, ht, htkind, hsent⟩ := hw.mem_puts.1 hj
    exact hw.mem_puts.2 ⟨s, hs, hskind, h.sent_before hs ht (hskind.trans htkind.symm) hij hsent⟩

theorem puts_eq_calls (h : Serial st) (hw : Wired loaded st) (hidle : st.Idle) (hnone : st.inFlight kind = []) :
    st.puts kind = st.calls kind := by
  refine (hw.sorted kind).eq_of_mem_iff calls_sorted fun id => ?_
  rw [hw.mem_puts, mem_calls]
  refine ⟨fun ⟨s, hs, hkind, _⟩ => ⟨s, hs, hkind⟩, fun ⟨s, hs, hkind⟩ => ⟨s, hs, hkind, ?_⟩⟩
  refine h.all_sent hidle (fun i t ht htkind hsent => ?_) id s hs hkind
  by_contra hwait
  have hmem : i ∈ st.inFlight kind := (mem_inFlight hw).2 ⟨hw.mem_puts.2 ⟨t, ht, htkind, hsent⟩, hwait⟩
  rw [hnone] at hmem
  cases hmem

/-- At most one request of a kind is in flight; the requests of a kind are those of its calls, in their order, each with
the version last acknowledged; the jobs run out, and leave a call unsent only behind a request in flight, however the
requests before it came out. -/
theorem saves_serialized (h : (page loaded).Reach System.free st) (kind : DocumentKind) :
    (st.inFlight kind).length ≤ 1 ∧ st.puts kind <+: st.calls kind ∧
    (∀ id json version, .put id kind json version ∈ st.wire →
      ∃ s : Save V, st.saves[id]? = some s ∧ s.kind = kind ∧ s.json = json) ∧
    (∀ before after id json version, st.wire = before ++ .put id kind json version :: after →
      version = lastAcknowledged loaded kind before) ∧
    (∀ p job st', st.react p job = some st' → st'.work < st.work) ∧
    (st.Idle → st.inFlight kind = [] → st.puts kind = st.calls kind) := by
  have hs := serial h
  have hw := wired h
  refine ⟨inFlight_length hs hw, puts_isPrefix hs hw, fun id json version hput => ?_,
    fun before after id json version => hw.carries before after id kind json version, fun _ _ _ => work_react,
    puts_eq_calls hs hw⟩
  obtain ⟨s, hsave, hkind, hjson, -⟩ := (hw.puts ..).1 hput
  exact ⟨s, hsave, hkind, hjson⟩

/-- Two saves of the settings, the first of which fails. -/
def failedThenSaved : List (SaveEvent Nat) := [.call .settings "a", .call .settings "b", .answer 0 .failed,
  .react (.writing 0) (.write 1), .answer 1 (.ok (some 8)), .react (.writing 1) (.adopt 1)]

theorem saves_serialized_failed : ∃ st, (page fun _ => some 7).Reach System.free st ∧
    st.wire = [.put 0 .settings "a" (some 7), .answer 0 .settings .failed, .put 1 .settings "b" (some 7),
      .answer 1 .settings (.ok (some 8))] ∧ (st.inFlight .settings).length ≤ 1 := by
  have hreach := System.reach_of_exec rfl (rfl : (page fun _ => some 7).exec
    ⟨[], fun _ => none, fun _ => some 7, .empty, []⟩ failedThenSaved = some _)
  exact ⟨_, hreach, rfl, (saves_serialized hreach .settings).1⟩

end

end Zedspaces.Web.SaveQueue
