/-
Requests under one `Idempotency-Key`. The first sets a pending marker that lasts a minute, runs its handler, and leaves
the response under the key for a day; a refusal deletes the key. The marker does not know its request: once it has run
out under a handler still at work, the next request runs its own (`two_effects`), and the first one's refusal deletes
whatever it finds. Where no request takes the key over an unfinished one, the handler takes effect at most once
(`idempotent_at_most_once`).
-/
import Zedspaces.Lib.Json
import Zedspaces.Lib.Processes
import Zedspaces.Web.KvRefines

namespace Zedspaces.Web

open Lib Lib.System

/-- A response, as it is cached too. -/
structure HttpResponse where
  status : Nat
  body : String
  contentType : Option String
  deriving DecidableEq, Repr

def HttpResponse.ok (res : HttpResponse) : Bool := 200 ≤ res.status && res.status < 300

/-- The response built from the cached one: no body with 204, and without a content type the one of a text body. -/
def HttpResponse.replay (cached : HttpResponse) : HttpResponse where
  status := cached.status
  body := if cached.status = 204 then "" else cached.body
  contentType := match cached.contentType.filter (· ≠ "") with
    | some contentType => some contentType
    | none => if cached.status = 204 then none else some "text/plain;charset=UTF-8"

def idempotencyTtlMs : Int := 24 * 3600000

def idempotencyPendingTtlMs : Int := 60000

def pending : String := "__pending__"

/-- `JSON.stringify` of a response. -/
def HttpResponse.stringify (res : HttpResponse) : Text :=
  Json.object [("status".toList, Json.number res.status), ("body".toList, Json.string res.body.toList),
    ("contentType".toList, match res.contentType with
      | none => "null".toList
      | some contentType => Json.string contentType.toList)]

/-- A string, or nothing. -/
def readOptional (t : Text) : Option (Option String × Text) :=
  match Text.stripPrefix "null".toList t with
  | some rest => some (none, rest)
  | none => (Json.readString t).map fun (value, rest) => (some (String.ofList value), rest)

/-- `JSON.parse` of a response that was written so. -/
def HttpResponse.parse (t : Text) : Option HttpResponse := do
  let rest ← Text.stripPrefix "\x7b\"status\":".toList t
  let status := Nat.ofDigitChars 10 (rest.takeWhile Char.isDigit) 0
  let rest ← Text.stripPrefix ",\"body\":".toList (rest.dropWhile Char.isDigit)
  let (body, rest) ← Json.readString rest
  let rest ← Text.stripPrefix ",\"contentType\":".toList rest
  let (contentType, rest) ← readOptional rest
  if rest = ['\x7d'] then some ⟨status, String.ofList body, contentType⟩ else none

/-- What is stored of a response. -/
def HttpResponse.cached (res : HttpResponse) : String := String.ofList res.stringify

/-- What a handler does in the end: throws, or responds. -/
inductive HandlerOutcome where
  | threw
  | responded (res : HttpResponse)

inductive IdemAnswer where
  | ran (res : HttpResponse)
  | replayed (res : HttpResponse)
  | inProgress
  | failed
  deriving DecidableEq, Repr

/-- A request: before it sets the marker, before it reads what is in its way, while its handler runs, before it caches
the response or deletes the key, answered, or cut short with an effect that nothing records. -/
inductive RequestPc where
  | arrived
  | blocked
  | running
  | succeeded (res : HttpResponse)
  | refused
  | answered (answer : IdemAnswer)
  | cut (effect : Option HttpResponse)
  deriving DecidableEq, Repr

/-- The clock, the table of the store, the responses of the handlers that took effect, in order, and when the first
request under the key was possible. -/
structure IdemWorld where
  now : Int
  table : SqlKv.Table
  effects : List HttpResponse
  since : Int

inductive IdemEvent where
  | advance (ms : Nat)
  | statement (statement : KvStatement)
  | sweep

/-- One step of a request. -/
def RequestPc.next (cacheKey : String) (outcome : HandlerOutcome) (w : IdemWorld) :
    RequestPc → Option (IdemWorld × RequestPc)
  | .arrived =>
    let r := SqlKv.set w.table w.now cacheKey pending (some idempotencyPendingTtlMs) true
    some ({ w with table := r.1 }, if r.2 then .running else .blocked)
  | .blocked => some (w, .answered (match SqlKv.get w.table w.now cacheKey with
    | none => .inProgress
    | some cached =>
      if cached = pending then .inProgress
      else match HttpResponse.parse cached.toList with
        | none => .failed
        | some replay => .replayed replay.replay))
  | .running => match outcome with
    | .threw => some (w, .refused)
    | .responded res => if res.ok then some ({ w with effects := w.effects ++ [res] }, .succeeded res) else some (w, .refused)
  | .succeeded res =>
    some ({ w with table := (SqlKv.set w.table w.now cacheKey res.cached (some idempotencyTtlMs) false).1 },
      .answered (.ran res))
  | .refused => some ({ w with table := SqlKv.del w.table cacheKey }, .answered .failed)
  | .answered _ => none
  | .cut _ => none

/-- A request cut short. -/
def RequestPc.halt : RequestPc → Option RequestPc
  | .answered _ | .cut _ => none
  | .succeeded res => some (.cut (some res))
  | _ => some (.cut none)

def IdemWorld.apply (sql : SqlNumbers) (w : IdemWorld) : IdemEvent → IdemWorld
  | .advance ms => { w with now := w.now + ms }
  | .statement statement => { w with table := (SqlKv.answer sql w.now w.table statement).1 }
  | .sweep => { w with table := SqlKv.sweepExpiredKv w.table w.now }

/-- Requests of one user under one key, among everything else the store is used for. -/
def requests (sql : SqlNumbers) (cacheKey : String) :
    Machine IdemWorld RequestPc Unit HandlerOutcome IdemEvent where
  accept _ w := some (w, .arrived)
  next _ pc outcome w := (pc.next cacheKey outcome w).map fun (w, pc) => (w, pc, none)
  halt := RequestPc.halt
  env event w := w.apply sql event

abbrev Requests := Table IdemWorld RequestPc

/-- The key is new. -/
def idempotency (sql : SqlNumbers) (cacheKey : String) :
    System Requests (Event Unit HandlerOutcome IdemEvent) :=
  (requests sql cacheKey).system fun w => w.table cacheKey = none ∧ w.effects = [] ∧ w.since = w.now

/-- The request has taken the key and not let go of it: its handler may still take effect, or it will still write the
key, or it has been cut short after taking effect. -/
def RequestPc.Unfinished : RequestPc → Bool
  | .running | .succeeded _ | .refused | .cut (some _) => true
  | _ => false

/-- Requests try for the key within a day of the first, and nothing else uses it. -/
def WithinADay (cacheKey : String) (s : Requests) : Event Unit HandlerOutcome IdemEvent → Prop
  | .act n _ => s.procs n = some .arrived → s.world.now < s.world.since + idempotencyTtlMs
  | .env (.statement statement) => statement.Spares cacheKey
  | _ => True

/-- No request takes the key over one that is not finished with it. -/
def TakesOverNobody (cacheKey : String) (s : Requests) : Event Unit HandlerOutcome IdemEvent → Prop
  | .act n _ => s.procs n = some .arrived → SqlKv.get s.world.table s.world.now cacheKey = none →
    ∀ k pc, s.procs k = some pc → pc.Unfinished = false
  | _ => True

instance (cacheKey : String) (s : Requests) : ∀ event, Decidable (WithinADay cacheKey s event)
  | .act n _ => inferInstanceAs (Decidable (s.procs n = some .arrived → s.world.now < s.world.since + idempotencyTtlMs))
  | .env (.statement statement) => inferInstanceAs (Decidable (statement.Spares cacheKey))
  | .env (.advance _) | .env .sweep | .arrive _ _ | .halt _ => .isTrue trivial

instance (cacheKey : String) (s : Requests) : ∀ event, Decidable (TakesOverNobody cacheKey s event)
  | .act n _ => inferInstanceAs (Decidable (s.procs n = some .arrived →
      SqlKv.get s.world.table s.world.now cacheKey = none → ∀ k pc, s.procs k = some pc → pc.Unfinished = false))
  | .env _ | .arrive _ _ | .halt _ => .isTrue trivial

/-- The handler took effect at most once, and who was answered with success was answered that effect's response. -/
def AtMostOnce (s : Requests) : Prop :=
  s.world.effects.length ≤ 1 ∧ ∀ n answer, s.procs n = some (.answered answer) →
    (∀ res, answer = .ran res → s.world.effects = [res]) ∧
    ∀ res, answer = .replayed res → ∃ first, s.world.effects = [first] ∧ res = first.replay

variable {sql : SqlNumbers} {cacheKey : String} {s : Requests} {w : IdemWorld} {n : Nat}
  {pc pc' : RequestPc}

/-! ## Cached responses -/

theorem readOptional_none (rest : Text) : readOptional ("null".toList ++ rest) = some (none, rest) := by
  unfold readOptional
  rw [Text.stripPrefix_append]

theorem readOptional_some (value : String) (rest : Text) :
    readOptional (Json.string value.toList ++ rest) = some (some value, rest) := by
  have hquote : Text.stripPrefix "null".toList (Json.string value.toList ++ rest) = none := rfl
  unfold readOptional
  rw [hquote, Json.readString_string]
  show some (some (String.ofList value.toList), rest) = _
  rw [String.ofList_toList]

/-- A cached response is read back. -/
theorem HttpResponse.parse_stringify (res : HttpResponse) : parse res.stringify = some res := by
  obtain ⟨status, body, contentType⟩ := res
  have htext : ∀ value, Json.object [("status".toList, Json.number status), ("body".toList, Json.string body.toList),
      ("contentType".toList, value)] = "\x7b\"status\":".toList ++ (Json.number status ++ (",\"body\":".toList ++
        (Json.string body.toList ++ (",\"contentType\":".toList ++ (value ++ ['\x7d']))))) := by
    intro value
    simp [Json.object, Json.field, List.intercalate, List.intersperse, Json.string, Json.escape]
  have hdigits : ∀ c ∈ Json.number status, c.isDigit = true :=
    fun c hc => Nat.isDigit_of_mem_toDigits (by decide) (by decide) hc
  have htake : ∀ rest, (Json.number status ++ (",\"body\":".toList ++ rest)).takeWhile Char.isDigit = Json.number status := by
    intro rest
    rw [List.takeWhile_append_of_pos hdigits]
    exact List.append_nil _
  have hdrop : ∀ rest, (Json.number status ++ (",\"body\":".toList ++ rest)).dropWhile Char.isDigit =
      ",\"body\":".toList ++ rest := by
    intro rest
    rw [List.dropWhile_append_of_pos hdigits]
    rfl
  have hstatus : Nat.ofDigitChars 10 (Json.number status) 0 = status := Nat.ofDigitChars_ten_toDigits
  have hoptional : ∀ rest, readOptional ((match contentType with
      | none => "null".toList
      | some contentType => Json.string contentType.toList) ++ rest) = some (contentType, rest) := by
    intro rest
    cases contentType with
    | none => exact readOptional_none rest
    | some value => exact readOptional_some value rest
  unfold stringify parse
  rw [htext]
  simp only [Text.stripPrefix_append, Option.bind_eq_bind, Option.bind_some, htake, hdrop, hstatus,
    Json.readString_string, hoptional, if_true, String.ofList_toList]

theorem parse_cached (res : HttpResponse) : HttpResponse.parse res.cached.toList = some res := by
  rw [HttpResponse.cached, String.toList_ofList]
  exact HttpResponse.parse_stringify res

/-! ## The invariant -/

/-- The response whose effect the request has taken and not recorded. -/
def RequestPc.effect : RequestPc → Option HttpResponse
  | .succeeded res => some res
  | .cut effect => effect
  | _ => none

/-- What a request says about the effects. -/
structure RequestPc.Fits (pc : RequestPc) (effects : List HttpResponse) : Prop where
  none_yet : pc = .running ∨ pc = .refused → effects = []
  taken : ∀ res, pc.effect = some res → effects = [res]
  ran : ∀ res, pc = .answered (.ran res) → effects = [res]
  replayed : ∀ res, pc = .answered (.replayed res) → ∃ first, effects = [first] ∧ res = first.replay

/-- An effect is with the request that took it, or cached for a day from its taking on. -/
structure Recorded (cacheKey : String) (s : Requests) : Prop where
  since : s.world.since ≤ s.world.now
  single : Table.AtMostOne (fun pc : RequestPc => pc.Unfinished = true) s
  once : s.world.effects.length ≤ 1
  settled : ∀ res, s.world.effects = [res] → (∃ k p, s.procs k = some p ∧ p.effect = some res) ∨
    (∃ t, s.world.table cacheKey = some ⟨res.cached, some t⟩ ∧ s.world.since + idempotencyTtlMs ≤ t) ∨
    s.world.since + idempotencyTtlMs ≤ s.world.now
  cached : ∀ row, s.world.table cacheKey = some row → row.value = pending ∨
    ∃ res, s.world.effects = [res] ∧ row.value = res.cached

theorem RequestPc.unfinished_of_effect {res : HttpResponse} (h : pc.effect = some res) : pc.Unfinished = true := by
  cases pc with
  | succeeded res => rfl
  | cut effect =>
    have heffect : effect = some res := h
    rw [heffect]
    rfl
  | _ => cases h

/-- Before any effect a request that is not finished says nothing, nor does one that fits. -/
theorem RequestPc.Fits.of_finished (h : pc.Fits []) (hfinished : pc.Unfinished = false) (effects : List HttpResponse) :
    pc.Fits effects where
  none_yet := by rintro (rfl | rfl) <;> cases hfinished
  taken res heffect := by
    rw [RequestPc.unfinished_of_effect heffect] at hfinished
    cases hfinished
  ran res hran := by cases h.ran res hran
  replayed res hreplayed := by
    obtain ⟨first, hfirst, -⟩ := h.replayed res hreplayed
    cases hfirst

/-- A request that has come to nothing fits. -/
theorem fits_idle (effects : List HttpResponse) (h : pc = .arrived ∨ pc = .blocked ∨ pc = .cut none ∨
    pc = .answered .inProgress ∨ pc = .answered .failed) : pc.Fits effects := by
  constructor
  · rintro (rfl | rfl) <;> simp at h
  · intro res heffect
    rcases h with rfl | rfl | rfl | rfl | rfl <;> cases heffect
  · rintro res rfl
    simp at h
  · rintro res rfl
    simp at h

/-- A handler that has taken no effect says that nobody's has. -/
theorem fits_unspent {effects : List HttpResponse} (hnone : effects = []) (h : pc = .running ∨ pc = .refused) :
    pc.Fits effects := by
  subst hnone
  rcases h with rfl | rfl <;>
    exact ⟨fun _ => rfl, by rintro res ⟨⟩, by rintro res ⟨⟩, by rintro res ⟨⟩⟩

/-- A step of one request that takes no effect. -/
theorem Recorded.set (h : Recorded cacheKey s) (hpc : s.procs n = some pc) {w : IdemWorld}
    (hsince : w.since = s.world.since) (hnow : w.now = s.world.now) (heffects : w.effects = s.world.effects)
    (hunfinished : pc'.Unfinished = true → pc.Unfinished = true)
    (hsettled : ∀ res, s.world.effects = [res] → pc.effect = some res → pc'.effect = some res ∨
      ∃ t, w.table cacheKey = some ⟨res.cached, some t⟩ ∧ w.since + idempotencyTtlMs ≤ t)
    (hrow : ∀ res t, s.world.effects = [res] → s.world.table cacheKey = some ⟨res.cached, some t⟩ →
      s.world.since + idempotencyTtlMs ≤ t →
      ∃ t, w.table cacheKey = some ⟨res.cached, some t⟩ ∧ w.since + idempotencyTtlMs ≤ t)
    (hcached : ∀ row, w.table cacheKey = some row → row.value = pending ∨
      ∃ res, s.world.effects = [res] ∧ row.value = res.cached) :
    Recorded cacheKey (s.set n pc' w) where
  since := by
    show w.since ≤ w.now
    rw [hsince, hnow]
    exact h.since
  single := h.single.set hpc hunfinished w
  once := by
    show w.effects.length ≤ 1
    rw [heffects]
    exact h.once
  settled res hres := by
    have hone : s.world.effects = [res] := heffects ▸ hres
    rcases h.settled res hone with ⟨k, p, hp, heffect⟩ | ⟨t, ht, hday⟩ | hover
    · by_cases hkn : k = n
      · subst hkn
        rw [hpc] at hp
        cases hp
        rcases hsettled res hone heffect with heffect' | hrow
        · exact .inl ⟨k, pc', Table.set_procs_self .., heffect'⟩
        · exact .inr (.inl hrow)
      · exact .inl ⟨k, p, (Table.set_procs_ne s hkn pc' w).trans hp, heffect⟩
    · exact .inr (.inl (hrow res t hone ht hday))
    · refine .inr (.inr ?_)
      show w.since + idempotencyTtlMs ≤ w.now
      rw [hsince, hnow]
      exact hover
  cached row hrow := by
    rcases hcached row hrow with hpending | ⟨res, hres, hvalue⟩
    · exact .inl hpending
    · exact .inr ⟨res, heffects.trans hres, hvalue⟩

/-- A step of one request that leaves the world alone. -/
theorem Recorded.quiet (h : Recorded cacheKey s) (hpc : s.procs n = some pc)
    (hunfinished : pc'.Unfinished = true → pc.Unfinished = true)
    (hsettled : ∀ res, pc.effect = some res → pc'.effect = some res) :
    Recorded cacheKey (s.set n pc' s.world) :=
  h.set hpc rfl rfl rfl hunfinished (fun res _ heffect => .inl (hsettled res heffect))
    (fun _ t _ ht hday => ⟨t, ht, hday⟩) h.cached

/-! ## Steps -/

/-- Where the key is free and nobody is unfinished, there has been no effect within the day. -/
theorem Recorded.effects_eq_nil (h : Recorded cacheKey s) (hday : s.world.now < s.world.since + idempotencyTtlMs)
    (habsent : SqlKv.get s.world.table s.world.now cacheKey = none)
    (hnobody : ∀ k pc, s.procs k = some pc → pc.Unfinished = false) : s.world.effects = [] := by
  have honce := h.once
  rcases heffects : s.world.effects with _ | ⟨res, _ | ⟨_, _⟩⟩
  · rfl
  · rcases h.settled res heffects with ⟨k, p, hp, heffect⟩ | ⟨t, ht, hle⟩ | hover
    · have hfinished := hnobody k p hp
      rw [RequestPc.unfinished_of_effect heffect] at hfinished
      cases hfinished
    · have hlive : (⟨res.cached, some t⟩ : Timed String).live s.world.now = true :=
        decide_eq_true (show s.world.now < t by omega)
      rw [SqlKv.get, ht, Option.filter_some, if_pos hlive] at habsent
      cases habsent
    · omega
  · rw [heffects] at honce
    simp at honce

/-- The others of a request that takes the first effect. -/
theorem fits_others (h : Recorded cacheKey s) (heach : ∀ k q, s.procs k = some q → q.Fits s.world.effects)
    (hpc : s.procs n = some .running) (effects : List HttpResponse) :
    ∀ k q, k ≠ n → s.procs k = some q → q.Fits effects := by
  intro k q hkn hq
  have hnone : s.world.effects = [] := (heach n _ hpc).none_yet (.inl rfl)
  have hfits := heach k q hq
  rw [hnone] at hfits
  refine hfits.of_finished ?_ effects
  by_contra hnot
  exact hkn (h.single k n q .running hq hpc (by simpa using hnot) rfl)

theorem Recorded.arrived (hs : Recorded cacheKey s) (hpc : s.procs n = some .arrived) {outcome : HandlerOutcome}
    (hday : s.world.now < s.world.since + idempotencyTtlMs)
    (hnobody : SqlKv.get s.world.table s.world.now cacheKey = none → ∀ k pc, s.procs k = some pc → pc.Unfinished = false)
    (hnext : RequestPc.next cacheKey outcome s.world .arrived = some (w, pc')) :
    Recorded cacheKey (s.set n pc' w) ∧ w.effects = s.world.effects ∧ pc'.Fits w.effects := by
  cases hnext
  cases htaken : (SqlKv.set s.world.table s.world.now cacheKey pending (some idempotencyPendingTtlMs) true).2 with
  | true =>
    have habsent := (set_nx_taken pending _).1 htaken
    have hfinished := hnobody habsent
    have hnone := hs.effects_eq_nil hday habsent hfinished
    refine ⟨⟨hs.since, ?_, hs.once, ?_, ?_⟩, rfl, ?_⟩
    · refine Table.atMostOne_set (fun k pc hk => ?_) n _ _
      rw [hfinished k pc hk]
      exact Bool.false_ne_true
    · intro res hres
      have hres : s.world.effects = [res] := hres
      rw [hnone] at hres
      cases hres
    · intro row hrow
      have hrow : (SqlKv.set s.world.table s.world.now cacheKey pending (some idempotencyPendingTtlMs) true).1 cacheKey =
          some row := hrow
      rw [set_of_taken htaken, Function.update_self] at hrow
      cases hrow
      exact .inl rfl
    · exact fits_unspent hnone (.inl rfl)
  | false =>
    rw [set_of_not_taken htaken]
    exact ⟨hs.quiet hpc nofun nofun, rfl, fits_idle _ (.inr (.inl rfl))⟩

theorem Recorded.blocked (hs : Recorded cacheKey s) (hpc : s.procs n = some .blocked)
    {outcome : HandlerOutcome} (hnext : RequestPc.next cacheKey outcome s.world .blocked = some (w, pc')) :
    Recorded cacheKey (s.set n pc' w) ∧ w.effects = s.world.effects ∧ pc'.Fits w.effects := by
  cases hnext
  refine ⟨hs.quiet hpc nofun nofun, rfl, ?_⟩
  cases hget : SqlKv.get s.world.table s.world.now cacheKey with
  | none => exact fits_idle _ (.inr (.inr (.inr (.inl rfl))))
  | some value =>
    obtain ⟨row, hrow, rfl⟩ := Option.map_eq_some_iff.1 hget
    have hrow := (Option.filter_eq_some_iff.1 hrow).1
    dsimp only
    by_cases hpending : row.value = pending
    · rw [if_pos hpending]
      exact fits_idle _ (.inr (.inr (.inr (.inl rfl))))
    · rw [if_neg hpending]
      obtain ⟨first, hfirst, hvalue⟩ := (hs.cached row hrow).resolve_left hpending
      rw [hvalue, parse_cached]
      refine ⟨fun h => absurd h (by simp), nofun, nofun, ?_⟩
      rintro res ⟨⟩
      exact ⟨first, hfirst, rfl⟩

/-- A handler ends: with the first effect, or with none. -/
theorem Recorded.running (hs : Recorded cacheKey s) (heach : ∀ k q, s.procs k = some q → q.Fits s.world.effects)
    (hpc : s.procs n = some .running) {outcome : HandlerOutcome}
    (hnext : RequestPc.next cacheKey outcome s.world .running = some (w, pc')) :
    Recorded cacheKey (s.set n pc' w) ∧ ∀ k q, (s.set n pc' w).procs k = some q → q.Fits w.effects := by
  have hnone : s.world.effects = [] := (heach n _ hpc).none_yet (.inl rfl)
  have hrefused : Recorded cacheKey (s.set n .refused s.world) ∧
      ∀ k q, (s.set n .refused s.world).procs k = some q → q.Fits s.world.effects :=
    ⟨hs.quiet hpc (fun _ => rfl) nofun, Table.forall_set (P := fun _ q => RequestPc.Fits q s.world.effects)
      (fits_unspent hnone (.inr rfl)) fun k q _ hq => heach k q hq⟩
  cases outcome with
  | threw => cases hnext; exact hrefused
  | responded res =>
    simp only [RequestPc.next] at hnext
    split at hnext
    · cases hnext
      have hone : s.world.effects ++ [res] = [res] := by rw [hnone]; rfl
      refine ⟨⟨hs.since, ?_, by show (s.world.effects ++ [res]).length ≤ 1; rw [hone]; exact Nat.le_refl 1, ?_, ?_⟩, ?_⟩
      · exact hs.single.set hpc (fun _ => rfl) _
      · intro res' hres'
        have hres' : s.world.effects ++ [res] = [res'] := hres'
        rw [hone] at hres'
        cases hres'
        exact .inl ⟨n, .succeeded res, Table.set_procs_self .., rfl⟩
      · intro row hrow
        rcases hs.cached row hrow with hpending | ⟨res', hres', -⟩
        · exact .inl hpending
        · rw [hnone] at hres'
          cases hres'
      · refine Table.forall_set (P := fun _ q => RequestPc.Fits q (s.world.effects ++ [res])) ?_ (fits_others hs heach hpc _)
        refine ⟨fun h => absurd h (by simp), ?_, nofun, nofun⟩
        rintro res' ⟨⟩
        exact hone
    · cases hnext
      exact hrefused

/-- A response is cached for a day. -/
theorem Recorded.succeeded (hs : Recorded cacheKey s) {res : HttpResponse} (hpc : s.procs n = some (.succeeded res))
    (hfits : (RequestPc.succeeded res).Fits s.world.effects) {outcome : HandlerOutcome}
    (hnext : RequestPc.next cacheKey outcome s.world (.succeeded res) = some (w, pc')) :
    Recorded cacheKey (s.set n pc' w) ∧ w.effects = s.world.effects ∧ pc'.Fits w.effects := by
  cases hnext
  have hone : s.world.effects = [res] := hfits.taken res rfl
  have hwritten : (SqlKv.set s.world.table s.world.now cacheKey res.cached (some idempotencyTtlMs) false).1
      cacheKey = some ⟨res.cached, some (s.world.now + idempotencyTtlMs)⟩ := by
    rw [set_always, Function.update_self]
    rfl
  have hday : s.world.since + idempotencyTtlMs ≤ s.world.now + idempotencyTtlMs := by
    have := hs.since
    omega
  refine ⟨hs.set hpc rfl rfl rfl nofun ?_ ?_ ?_, rfl, ⟨fun h => absurd h (by simp), nofun, ?_, nofun⟩⟩
  · intro res' hres' _
    rw [hone] at hres'
    cases hres'
    exact .inr ⟨_, hwritten, hday⟩
  · intro res' t hres' _ _
    rw [hone] at hres'
    cases hres'
    exact ⟨_, hwritten, hday⟩
  · intro row hrow
    have hrow := hwritten.symm.trans hrow
    cases hrow
    exact .inr ⟨res, hone, rfl⟩
  · rintro res' ⟨⟩
    exact hone

/-- A refusal deletes the key; nothing is there but a marker. -/
theorem Recorded.refused (hs : Recorded cacheKey s) (hpc : s.procs n = some .refused)
    (hfits : RequestPc.refused.Fits s.world.effects) {outcome : HandlerOutcome}
    (hnext : RequestPc.next cacheKey outcome s.world .refused = some (w, pc')) :
    Recorded cacheKey (s.set n pc' w) ∧ w.effects = s.world.effects ∧ pc'.Fits w.effects := by
  cases hnext
  have hnone : s.world.effects = [] := hfits.none_yet (.inr rfl)
  refine ⟨hs.set hpc rfl rfl rfl nofun ?_ ?_ ?_, rfl, fits_idle _ (.inr (.inr (.inr (.inr rfl))))⟩
  · intro res hres _
    rw [hnone] at hres
    cases hres
  · intro res t hres _ _
    rw [hnone] at hres
    cases hres
  · intro row hrow
    have hrow : SqlKv.del s.world.table cacheKey cacheKey = some row := hrow
    rw [SqlKv.del, Function.update_self] at hrow
    cases hrow

/-- The steps of the runs considered. -/
def OneAtATime (cacheKey : String) (s : Requests) (event : Event Unit HandlerOutcome IdemEvent) : Prop :=
  WithinADay cacheKey s event ∧ TakesOverNobody cacheKey s event

instance (cacheKey : String) (s : Requests) (event : Event Unit HandlerOutcome IdemEvent) :
    Decidable (OneAtATime cacheKey s event) := inferInstanceAs (Decidable (_ ∧ _))

/-- One step of any request. -/
theorem Recorded.next (hs : Recorded cacheKey s)
    (heach : ∀ k q, s.procs k = some q → q.Fits s.world.effects) (hpc : s.procs n = some pc) {outcome : HandlerOutcome}
    (hg : OneAtATime cacheKey s (.act n outcome)) (hnext : pc.next cacheKey outcome s.world = some (w, pc')) :
    Recorded cacheKey (s.set n pc' w) ∧ ∀ k q, (s.set n pc' w).procs k = some q → q.Fits w.effects := by
  have hframe : (Recorded cacheKey (s.set n pc' w) ∧ w.effects = s.world.effects ∧ pc'.Fits w.effects) →
      Recorded cacheKey (s.set n pc' w) ∧ ∀ k q, (s.set n pc' w).procs k = some q → q.Fits w.effects := by
    rintro ⟨hrecorded, heffects, hfits⟩
    refine ⟨hrecorded, Table.forall_set (P := fun _ q => RequestPc.Fits q w.effects) hfits fun k q _ hq => ?_⟩
    rw [heffects]
    exact heach k q hq
  cases pc with
  | arrived => exact hframe (hs.arrived hpc (hg.1 hpc) (hg.2 hpc) hnext)
  | blocked => exact hframe (hs.blocked hpc hnext)
  | running => exact hs.running heach hpc hnext
  | succeeded res => exact hframe (hs.succeeded hpc (heach n _ hpc) hnext)
  | refused => exact hframe (hs.refused hpc (heach n _ hpc) hnext)
  | answered answer => cases hnext
  | cut effect => cases hnext

theorem Recorded.halt (hs : Recorded cacheKey s) (heach : ∀ k q, s.procs k = some q → q.Fits s.world.effects)
    (hpc : s.procs n = some pc) (hhalt : pc.halt = some pc') :
    Recorded cacheKey (s.set n pc' s.world) ∧ pc'.Fits s.world.effects := by
  cases pc with
  | answered answer => cases hhalt
  | cut effect => cases hhalt
  | succeeded res =>
    cases hhalt
    have hfits := heach n _ hpc
    refine ⟨hs.quiet hpc (fun _ => rfl) fun _ h => h, ⟨fun h => absurd h (by simp), ?_, nofun, nofun⟩⟩
    rintro res' ⟨⟩
    exact hfits.taken res rfl
  | _ =>
    cases hhalt
    refine ⟨hs.quiet hpc nofun ?_, fits_idle _ (.inr (.inr (.inl rfl)))⟩
    intro res heffect
    cases heffect

theorem Recorded.env (hs : Recorded cacheKey s) (event : IdemEvent)
    (hspares : ∀ statement, event = .statement statement → statement.Spares cacheKey) :
    Recorded cacheKey ⟨s.world.apply sql event, s.entries⟩ ∧ (s.world.apply sql event).effects = s.world.effects := by
  cases event with
  | advance ms =>
    have hle : s.world.now ≤ s.world.now + ms := by omega
    refine ⟨⟨Int.le_trans hs.since hle, hs.single, hs.once, fun res hres => ?_, hs.cached⟩, rfl⟩
    rcases hs.settled res hres with h | h | h
    · exact .inl h
    · exact .inr (.inl h)
    · exact .inr (.inr (Int.le_trans h hle))
  | statement statement =>
    have hrow : (SqlKv.answer sql s.world.now s.world.table statement).1 cacheKey = s.world.table cacheKey :=
      answer_of_spares statement (hspares statement rfl)
    refine ⟨⟨hs.since, hs.single, hs.once, fun res hres => ?_, fun row h => hs.cached row (hrow.symm.trans h)⟩, rfl⟩
    rcases hs.settled res hres with h | ⟨t, ht, hday⟩ | h
    · exact .inl h
    · exact .inr (.inl ⟨t, hrow.trans ht, hday⟩)
    · exact .inr (.inr h)
  | sweep =>
    refine ⟨⟨hs.since, hs.single, hs.once, fun res hres => ?_, fun row hrow => ?_⟩, rfl⟩
    · rcases hs.settled res hres with h | ⟨t, ht, hday⟩ | h
      · exact .inl h
      · by_cases hlive : s.world.now < t
        · refine .inr (.inl ⟨t, ?_, hday⟩)
          show SqlKv.sweepExpiredKv s.world.table s.world.now cacheKey = _
          rw [sweep_eq]
          exact TtlMap.atTime_eq_some.2 ⟨ht, decide_eq_true hlive⟩
        · exact .inr (.inr (Int.le_trans hday (Int.not_lt.1 hlive)))
      · exact .inr (.inr h)
    · have hrow : SqlKv.sweepExpiredKv s.world.table s.world.now cacheKey = some row := hrow
      rw [sweep_eq] at hrow
      exact hs.cached row (TtlMap.atTime_eq_some.1 hrow).1

theorem requests_next {outcome : HandlerOutcome} {st : Option (Nat × RequestPc)}
    (h : (requests sql cacheKey).next n pc outcome s.world = some (w, pc', st)) :
    pc.next cacheKey outcome s.world = some (w, pc') ∧ st = none := by
  obtain ⟨⟨w₁, pc₁⟩, hnext, hstep⟩ := Option.map_eq_some_iff.1 h
  cases hstep
  exact ⟨hnext, rfl⟩

theorem outline_recorded : (requests sql cacheKey).Outline
    (fun w => w.table cacheKey = none ∧ w.effects = [] ∧ w.since = w.now) (OneAtATime cacheKey)
    (Recorded cacheKey) (fun _ pc s => pc.Fits s.world.effects) where
  init w hw := by
    obtain ⟨htable, heffects, hsince⟩ := hw
    refine ⟨hsince.le, ?_, by show w.effects.length ≤ 1; rw [heffects]; exact Nat.zero_le 1, ?_, ?_⟩
    · intro k m p q hp
      cases hp
    · intro res hres
      have hres : w.effects = [res] := hres
      rw [heffects] at hres
      cases hres
    · intro row hrow
      rw [show w.table cacheKey = some row from hrow] at htable
      cases htable
  accept s n i w pc hs _ hfree haccept := by
    cases haccept
    have harrived : ¬ RequestPc.Unfinished .arrived = true := Bool.false_ne_true
    refine ⟨⟨⟨hs.whole.since, hs.whole.single.arrive harrived _, hs.whole.once, fun res hres => ?_,
      hs.whole.cached⟩, fun k q _ hq => hs.each k q hq⟩, fits_idle _ (.inl rfl)⟩
    rcases hs.whole.settled res hres with ⟨k, p, hp, heffect⟩ | h
    · have hkn : k ≠ n := by
        rintro rfl
        rw [hfree] at hp
        cases hp
      exact .inl ⟨k, p, (Table.set_procs_ne s hkn _ _).trans hp, heffect⟩
    · exact .inr h
  next s n outcome pc w pc' st hs hg hpc hnext _ := by
    obtain ⟨hstep, rfl⟩ := requests_next hnext
    obtain ⟨hrecorded, heach⟩ := hs.whole.next hs.each hpc hg hstep
    exact ⟨⟨hrecorded, fun k q hkn hq => heach k q ((Table.set_procs_ne s hkn _ _).trans hq)⟩,
      heach n pc' (Table.set_procs_self ..), by rintro m q ⟨⟩⟩
  halt s n pc pc' hs _ hpc hhalt := by
    obtain ⟨hrecorded, hfits⟩ := hs.whole.halt hs.each hpc hhalt
    exact ⟨⟨hrecorded, fun k q _ hq => hs.each k q hq⟩, hfits⟩
  env s event hs hg := by
    have henv : Recorded cacheKey ⟨s.world.apply sql event, s.entries⟩ ∧
        (s.world.apply sql event).effects = s.world.effects :=
      hs.whole.env event (by rintro statement rfl; exact hg.1)
    obtain ⟨hrecorded, heffects⟩ := henv
    refine ⟨hrecorded, fun k q hq => ?_⟩
    show q.Fits (s.world.apply sql event).effects
    rw [heffects]
    exact hs.each k q hq

/-- Within a day, and as long as no request takes the key over an unfinished one, the handlers of all the requests take
effect once at most, and each success answered is that effect's response. -/
theorem idempotent_at_most_once (sql : SqlNumbers) (cacheKey : String)
    (s : Requests) (h : (idempotency sql cacheKey).Reach (OneAtATime cacheKey) s) : AtMostOnce s := by
  obtain ⟨hrecorded, heach⟩ := outline_recorded.holds h
  refine ⟨hrecorded.once, fun n answer hn => ⟨?_, ?_⟩⟩
  · rintro res rfl
    exact (heach n _ hn).ran res rfl
  · rintro res rfl
    exact (heach n _ hn).replayed res rfl

/-! ## Runs -/

def sampleResponse : HttpResponse := ⟨201, "created", some "application/json"⟩

/-- The key is new. -/
def sampleRequests : Requests := ⟨⟨0, fun _ => none, [], 0⟩, []⟩

/-- A request, another while it runs, and a third that is answered from the cache. -/
theorem idempotent_at_most_once_sample : ∃ s : Requests, s.procs 1 = some (.answered .inProgress) ∧
    s.procs 2 = some (.answered (.replayed sampleResponse)) ∧ AtMostOnce s := by
  obtain ⟨s, hr, h₁, h₂⟩ := exists_reach_of_execs (S := idempotency sampleNumbers "k") (G := OneAtATime "k")
    (fun s : Requests => s.procs 1 = some (.answered .inProgress) ∧
      s.procs 2 = some (.answered (.replayed sampleResponse)))
    [.arrive 0 (), .act 0 .threw, .arrive 1 (), .act 1 .threw, .act 1 .threw, .act 0 (.responded sampleResponse),
      .act 0 .threw, .env (.advance 3600000), .env .sweep, .arrive 2 (), .act 2 .threw, .act 2 .threw]
    (s := sampleRequests) ⟨⟨rfl, rfl, rfl⟩, rfl⟩ (by decide) (by decide)
  exact ⟨s, h₁, h₂, idempotent_at_most_once sampleNumbers "k" s hr⟩

/-- A handler at work for a minute, and the next request's: both take effect. -/
theorem two_effects : ¬ ∀ (sql : SqlNumbers) (cacheKey : String) (s : Requests),
    (idempotency sql cacheKey).Reach (WithinADay cacheKey) s → AtMostOnce s := by
  intro h
  obtain ⟨s, hr, htwo⟩ := exists_reach_of_execs (S := idempotency sampleNumbers "k") (G := WithinADay "k")
    (fun s : Requests => s.world.effects.length = 2)
    [.arrive 0 (), .act 0 .threw, .env (.advance 60000), .arrive 1 (), .act 1 .threw,
      .act 0 (.responded sampleResponse), .act 1 (.responded sampleResponse)]
    (s := sampleRequests) ⟨⟨rfl, rfl, rfl⟩, rfl⟩ (by decide) (by decide)
  have honce := (h sampleNumbers "k" s hr).1
  omega

end Zedspaces.Web
