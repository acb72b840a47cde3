/-
The documents and the pages that edit them, over every interleaving: any number of pages load a document and save it
through their queues, other clients write it too, requests are handled late, twice or never, and answers get lost or
arrive unreadable. A save quotes the version its page loaded or was told, so an accepted save overwrites nothing that
its page has neither read nor written (`saves_overwrite_own`).
-/
import Zedspaces.Lib.CasLog
import Zedspaces.Web.SaveQueue
import Zedspaces.Web.SettingsDocs

namespace Zedspaces.Web.DocumentSaves

open Lib SaveQueue

def settingsKind : DocumentKind → SettingsKind
  | .settings => .settings
  | .keymap => .keymap

/-- Who made an accepted write: a save of a page, or any other client. -/
inductive Writer where
  | save (page id : Nat)
  | other
  deriving DecidableEq

abbrev DocWrite := CasLog.Write Writer (String × SettingsKind) Utf16

/-- A page by its workspace's owner: what the reads of its boot came to (`null` where the document was missing), and
its host once the editor runs. -/
structure EditorPage where
  user : String
  fetched : DocumentKind → Option (Option Int)
  host : Option (Host Int)

def EditorPage.loaded (page : EditorPage) (kind : DocumentKind) : Option Int := (page.fetched kind).join

/-- What a request of a page came to at the server, by the page and the call. -/
structure Response where
  page : Nat
  id : Nat
  result : Except ApiError SettingsDoc

/-- `log` are the accepted writes, in their order. -/
structure Editing where
  table : SettingsTable
  pages : List EditorPage
  responses : List Response
  log : List DocWrite

inductive DocEvent where
  | navigate (user : String)
  | read (page : Nat) (kind : DocumentKind)
  | missing (page : Nat) (kind : DocumentKind)
  | start (page : Nat)
  | call (page : Nat) (kind : DocumentKind) (json : String)
  | react (page : Nat) (p : SavePromise) (job : SaveJob)
  | serve (page id : Nat)
  | reply (response : Nat)
  | garbled (response : Nat)
  | fail (page id : Nat)
  | put (user : String) (kind : SettingsKind) (bodyBytes : Nat) (content : Utf16) (version : Option Int)

def Editing.onPage (st : Editing) (i : Nat) (f : EditorPage → Option EditorPage) : Option Editing := do
  let page ← st.pages[i]?
  let page ← f page
  some { st with pages := st.pages.set i page }

def EditorPage.onHost (page : EditorPage) (f : Host Int → Option (Host Int)) : Option EditorPage := do
  let host ← page.host
  let host ← f host
  some { page with host := some host }

/-- A read of the boot, handled once for each document. -/
def EditorPage.fetch (page : EditorPage) (kind : DocumentKind) (version : Option Int) : Option EditorPage :=
  if page.host.isNone ∧ page.fetched kind = none then
    some { page with fetched := Function.update page.fetched kind (some version) }
  else none

/-- `boot` goes on when both documents are there. -/
def EditorPage.start (page : EditorPage) : Option EditorPage :=
  if page.host.isNone ∧ (page.fetched .settings).isSome ∧ (page.fetched .keymap).isSome then
    some { page with host := some ⟨[], fun _ => none, page.loaded, .empty, []⟩ }
  else none

/-- What the page makes of the response: an error of any kind rejects the save; where the body of a success cannot be
read, no version is named. -/
def answerOf (readable : Bool) : Except ApiError SettingsDoc → Answer Int
  | .ok doc => .ok (if readable then some doc.version else none)
  | .error _ => .failed

/-- A `PUT` at the server, with the response to the page that waits for it. -/
def Editing.write (st : Editing) (writer : Writer) (user : String) (kind : SettingsKind) (bodyBytes : Nat)
    (content : Utf16) (version : Option Int) : Editing × Except ApiError SettingsDoc :=
  match putDocument st.table user kind bodyBytes content version with
  | .ok (doc, table) =>
    ({ st with table, log := st.log ++ [⟨writer, (user, kind), content, version, doc.version⟩] }, .ok doc)
  | .error e => (st, .error e)

/-- The server handles a request that a page has sent. -/
def Editing.serve (st : Editing) (i id : Nat) : Option Editing := do
  let page ← st.pages[i]?
  let host ← page.host
  let s ← host.saves[id]?
  let version ← s.sent
  let (st, result) := st.write (.save i id) page.user (settingsKind s.kind)
    (Text.utf8 (putBody s.json version)).length (utf16 s.json) version
  some { st with responses := st.responses ++ [⟨i, id, result⟩] }

/-- A response arrives. -/
def Editing.deliver (st : Editing) (n : Nat) (readable : Bool) : Option Editing := do
  let r ← st.responses[n]?
  st.onPage r.page (·.onHost (·.answer r.id (answerOf readable r.result)))

/-- The accounts' documents, from any rows. -/
def editing (table₀ : SettingsTable) : System Editing DocEvent where
  init st := st = ⟨table₀, [], [], []⟩
  step st
    | .navigate user => some { st with pages := st.pages ++ [⟨user, fun _ => none, none⟩] }
    | .read i kind => st.onPage i fun page =>
      page.fetch kind (some (readDoc st.table page.user (settingsKind kind)).version)
    | .missing i kind => st.onPage i fun page => page.fetch kind none
    | .start i => st.onPage i EditorPage.start
    | .call i kind json => st.onPage i (·.onHost fun host => some (host.saveDocument kind json))
    | .react i p job => st.onPage i (·.onHost (·.react p job))
    | .serve i id => st.serve i id
    | .reply n => st.deliver n true
    | .garbled n => st.deliver n false
    | .fail i id => st.onPage i (·.onHost (·.answer id .failed))
    | .put user kind bodyBytes content version => some (st.write .other user kind bodyBytes content version).1

/-! ## What a step of a page does -/

section
variable {st st' : Editing} {page page' : EditorPage} {host host' : Host Int} {i id : Nat}
  {loaded : DocumentKind → Option Int}

theorem onPage_eq_some {f : EditorPage → Option EditorPage} (h : st.onPage i f = some st') :
    ∃ page page', st.pages[i]? = some page ∧ f page = some page' ∧
      st' = { st with pages := st.pages.set i page' } := by
  obtain ⟨page, hpage, h⟩ := Option.bind_eq_some_iff.1 h
  obtain ⟨page', hf, heq⟩ := Option.bind_eq_some_iff.1 h
  exact ⟨page, page', hpage, hf, (Option.some.inj heq).symm⟩

theorem onHost_eq_some {f : Host Int → Option (Host Int)} (h : page.onHost f = some page') :
    ∃ host host', page.host = some host ∧ f host = some host' ∧ page' = { page with host := some host' } := by
  obtain ⟨host, hhost, h⟩ := Option.bind_eq_some_iff.1 h
  obtain ⟨host', hf, heq⟩ := Option.bind_eq_some_iff.1 h
  exact ⟨host, host', hhost, hf, (Option.some.inj heq).symm⟩

/-- A host's step adds to its wire. -/
theorem wire_prefix {e : SaveEvent Int} (h : (SaveQueue.page loaded).step host e = some host') :
    host.wire <+: host'.wire := by
  cases e with
  | call kind json =>
    cases h
    unfold Host.saveDocument
    dsimp only
    split
    · exact List.prefix_refl _
    · exact List.prefix_append _ _
  | answer id a =>
    obtain ⟨s, sent, -, -, -, outcome, rfl⟩ := answer_eq_some h
    exact List.prefix_append _ _
  | react p job =>
    obtain ⟨outcome, -, -, ⟨id, s, -, -, rfl⟩ | ⟨id, -, rfl⟩ | ⟨id, s, -, -, rfl⟩⟩ := react_eq_some h
    · exact List.prefix_append _ _
    · exact List.prefix_refl _
    · exact List.prefix_refl _

/-- An answer on the wire was there before, or is the one that arrives. -/
theorem mem_wire_answer {e : SaveEvent Int} (h : (SaveQueue.page loaded).step host e = some host')
    {kind : DocumentKind} {a : Answer Int} (hmem : .answer id kind a ∈ host'.wire) :
    .answer id kind a ∈ host.wire ∨ e = .answer id a ∧ ∃ s, host.saves[id]? = some s ∧ s.kind = kind := by
  cases e with
  | call kind' json =>
    cases h
    unfold Host.saveDocument at hmem
    dsimp only at hmem
    split at hmem
    · exact .inl hmem
    · exact .inl (by simpa using hmem)
  | answer id' a' =>
    obtain ⟨s, sent, hs, -, -, outcome, rfl⟩ := answer_eq_some h
    rcases List.mem_append.1 hmem with hold | hnew
    · exact .inl hold
    · cases List.mem_singleton.1 hnew
      exact .inr ⟨rfl, s, hs, rfl⟩
  | react p job =>
    obtain ⟨outcome, -, -, ⟨id', s, -, -, rfl⟩ | ⟨id', -, rfl⟩ | ⟨id', s, -, -, rfl⟩⟩ := react_eq_some h
    · exact .inl (by simpa [Host.write] using hmem)
    · exact .inl hmem
    · exact .inl hmem

/-- A message names a version of the kind, or leaves the one there is. -/
theorem acknowledge_cases (kind : DocumentKind) (version : Option Int) (w : Wire Int) :
    acknowledge kind version w = version ∨
      ∃ id named, w = .answer id kind (.ok (some named)) ∧ acknowledge kind version w = some named := by
  cases w with
  | put id k json sent => exact .inl rfl
  | answer id k a =>
    cases a with
    | failed => exact .inl rfl
    | ok version =>
      cases version with
      | none => exact .inl rfl
      | some named =>
        by_cases hk : k = kind
        · exact .inr ⟨id, named, by rw [hk], if_pos hk⟩
        · exact .inl (if_neg hk)

/-- The version last acknowledged is the loaded one, or one that an answer named. -/
theorem lastAcknowledged_eq_some {kind : DocumentKind} {wire : List (Wire Int)} {v : Int}
    (h : lastAcknowledged loaded kind wire = some v) :
    loaded kind = some v ∨ ∃ id, .answer id kind (.ok (some v)) ∈ wire := by
  induction wire using List.reverseRecOn with
  | nil => exact .inl h
  | append_singleton wire w ih =>
    rw [lastAcknowledged_append] at h
    rcases acknowledge_cases kind (lastAcknowledged loaded kind wire) w with hold | ⟨id, named, rfl, hnew⟩
    · exact (ih (hold ▸ h)).imp_right fun ⟨id, hmem⟩ => ⟨id, List.mem_append_left _ hmem⟩
    · cases hnew.symm.trans h
      exact .inr ⟨id, by simp⟩

/-- Where one was loaded, there is one to quote. -/
theorem lastAcknowledged_isSome {kind : DocumentKind} (h : (loaded kind).isSome) (wire : List (Wire Int)) :
    (lastAcknowledged loaded kind wire).isSome := by
  induction wire using List.reverseRecOn with
  | nil => exact h
  | append_singleton wire w ih =>
    rw [lastAcknowledged_append]
    rcases acknowledge_cases kind (lastAcknowledged loaded kind wire) w with hold | ⟨id, named, -, hnew⟩
    · rwa [hold]
    · rw [hnew]
      rfl

end

/-! ## The writes and the pages they came from -/

/-- The rows after the writes. -/
def docsAfter (table₀ : SettingsTable) (log : List DocWrite) : SettingsTable :=
  log.foldl (fun table w => Function.update table w.key (some ⟨w.content, w.version⟩)) table₀

/-- The versions of the documents, 0 where there is no row. -/
def versionsOf (table : SettingsTable) (key : String × SettingsKind) : Int := (readDoc table key.1 key.2).version

/-- A save of the page, accepted at the version. -/
def Editing.Accepted (st : Editing) (i id : Nat) (key : String × SettingsKind) (version : Int) : Prop :=
  ∃ w ∈ st.log, w.writer = .save i id ∧ w.key = key ∧ w.version = version

structure Consistent (table₀ : SettingsTable) (st : Editing) : Prop where
  ok : CasLog.Ok (versionsOf table₀) st.log
  versions : ∀ key, versionsOf st.table key = CasLog.versionAfter (versionsOf table₀) st.log key
  table : st.table = docsAfter table₀ st.log
  hosts : ∀ (i : Nat) (page : EditorPage) (host : Host Int), st.pages[i]? = some page → page.host = some host →
    (SaveQueue.page page.loaded).Reach System.free host
  /-- An accepted save is a request of its page. -/
  sent : ∀ w ∈ st.log, ∀ i id : Nat, w.writer = .save i id → ∃ (page : EditorPage) (host : Host Int)
    (kind : DocumentKind) (json : String), st.pages[i]? = some page ∧ page.host = some host ∧
    .put id kind json w.quoted ∈ host.wire ∧ w.key = (page.user, settingsKind kind) ∧ w.content = utf16 json
  responses : ∀ r ∈ st.responses, ∀ doc, r.result = .ok doc → ∃ key, st.Accepted r.page r.id key doc.version
  answers : ∀ (i : Nat) (page : EditorPage) (host : Host Int) (id : Nat) (kind : DocumentKind) (v : Int),
    st.pages[i]? = some page → page.host = some host →
    .answer id kind (.ok (some v)) ∈ host.wire → st.Accepted i id (page.user, settingsKind kind) v

section
variable {table₀ : SettingsTable} {st st' : Editing} {page page' : EditorPage} {i id : Nat}

theorem docsAfter_concat (log : List DocWrite) (w : DocWrite) : docsAfter table₀ (log ++ [w]) =
    Function.update (docsAfter table₀ log) w.key (some ⟨w.content, w.version⟩) := by
  simp [docsAfter]

theorem settingsKind_inj {kind kind' : DocumentKind} (h : settingsKind kind = settingsKind kind') : kind = kind' := by
  cases kind <;> cases kind' <;> first | rfl | cases h

/-- A page goes on: it keeps its owner and what it has sent, and is told only what its own saves came to. -/
structure Editing.PageStep (st : Editing) (i : Nat) (page page' : EditorPage) : Prop where
  user : page'.user = page.user
  host : ∀ host, page.host = some host → ∃ host', page'.host = some host' ∧ host.wire <+: host'.wire
  reach : ∀ host, page'.host = some host → (SaveQueue.page page'.loaded).Reach System.free host
  answers : ∀ host id kind v, page'.host = some host → .answer id kind (.ok (some v)) ∈ host.wire →
    st.Accepted i id (page.user, settingsKind kind) v

theorem Consistent.pageStep (h : Consistent table₀ st) (hpage : st.pages[i]? = some page)
    (hstep : st.PageStep i page page') : Consistent table₀ { st with pages := st.pages.set i page' } where
  ok := h.ok
  versions := h.versions
  table := h.table
  hosts j q host hq hhost := by
    rcases (getElem?_set_eq_some hpage).1 hq with ⟨rfl, rfl⟩ | ⟨-, hq⟩
    · exact hstep.reach host hhost
    · exact h.hosts j q host hq hhost
  sent w hw j id hwriter := by
    obtain ⟨q, host, kind, json, hq, hhost, hput, hkey, hcontent⟩ := h.sent w hw j id hwriter
    by_cases hj : j = i
    · subst hj
      cases hpage.symm.trans hq
      obtain ⟨host', hhost', hwire⟩ := hstep.host host hhost
      refine ⟨page', host', kind, json, (getElem?_set_eq_some hpage).2 (.inl ⟨rfl, rfl⟩), hhost', hwire.mem hput, ?_,
        hcontent⟩
      rw [hstep.user]
      exact hkey
    · exact ⟨q, host, kind, json, (getElem?_set_eq_some hpage).2 (.inr ⟨hj, hq⟩), hhost, hput, hkey, hcontent⟩
  responses := h.responses
  answers j q host id kind v hq hhost hmem := by
    rcases (getElem?_set_eq_some hpage).1 hq with ⟨rfl, rfl⟩ | ⟨-, hq⟩
    · rw [hstep.user]
      exact hstep.answers host id kind v hhost hmem
    · exact h.answers j q host id kind v hq hhost hmem

/-- A step of a page's host that no answer comes with, or an answer that an accepted save stands behind. -/
theorem Consistent.onHost (h : Consistent table₀ st) {e : SaveEvent Int} {host host' : Host Int}
    (hpage : st.pages[i]? = some page) (hhost : page.host = some host)
    (hstep : (SaveQueue.page page.loaded).step host e = some host')
    (hanswer : ∀ id v, e = .answer id (.ok (some v)) → ∃ key, st.Accepted i id key v) :
    Consistent table₀ { st with pages := st.pages.set i { page with host := some host' } } := by
  refine h.pageStep hpage ⟨rfl, ?_, ?_, ?_⟩
  · rintro _ hsome
    cases hhost.symm.trans hsome
    exact ⟨host', rfl, wire_prefix hstep⟩
  · rintro _ ⟨⟩
    exact (h.hosts i page host hpage hhost).step trivial hstep
  · rintro _ id kind v ⟨⟩ hmem
    rcases mem_wire_answer hstep hmem with hold | ⟨heq, s, hs, hkind⟩
    · exact h.answers i page host id kind v hpage hhost hold
    · -- the accepted save is the call that is answered, so it is of the call's kind
      obtain ⟨key, w, hw, hwriter, -, hversion⟩ := hanswer id v heq
      obtain ⟨q, host₀, kind', json, hq, hhost₀, hput, hkey, -⟩ := h.sent w hw i id hwriter
      cases hpage.symm.trans hq
      cases hhost.symm.trans hhost₀
      obtain ⟨s', hs', hkind', -⟩ := ((wired (h.hosts i page host hpage hhost)).puts ..).1 hput
      cases hs.symm.trans hs'
      rw [← hkind, hkind']
      exact ⟨w, hw, hwriter, hkey, hversion⟩

/-- A page that is not running yet stays so, or starts. -/
theorem Consistent.boot (h : Consistent table₀ st) (hpage : st.pages[i]? = some page) (hnone : page.host = none)
    (huser : page'.user = page.user)
    (hhost : ∀ host, page'.host = some host → host = ⟨[], fun _ => none, page'.loaded, .empty, []⟩) :
    Consistent table₀ { st with pages := st.pages.set i page' } := by
  refine h.pageStep hpage ⟨huser, ?_, ?_, ?_⟩
  · intro host hsome
    cases hnone.symm.trans hsome
  · intro host hsome
    exact .init (hhost host hsome)
  · intro host id kind v hsome hmem
    rw [hhost host hsome] at hmem
    cases hmem

theorem Consistent.navigate (h : Consistent table₀ st) (user : String) :
    Consistent table₀ { st with pages := st.pages ++ [⟨user, fun _ => none, none⟩] } where
  ok := h.ok
  versions := h.versions
  table := h.table
  hosts i page host hpage hhost := by
    rcases getElem?_concat_eq_some.1 hpage with hpage | ⟨-, rfl⟩
    · exact h.hosts i page host hpage hhost
    · cases hhost
  sent w hw i id hwriter := by
    obtain ⟨page, host, kind, json, hpage, hrest⟩ := h.sent w hw i id hwriter
    exact ⟨page, host, kind, json, getElem?_concat_eq_some.2 (.inl hpage), hrest⟩
  responses := h.responses
  answers i page host id kind v hpage hhost hmem := by
    rcases getElem?_concat_eq_some.1 hpage with hpage | ⟨-, rfl⟩
    · exact h.answers i page host id kind v hpage hhost hmem
    · cases hhost

theorem Editing.Accepted.concat {w : DocWrite} {table : SettingsTable} {pages : List EditorPage}
    {responses : List Response} {key : String × SettingsKind} {v : Int} (h : st.Accepted i id key v) :
    Editing.Accepted ⟨table, pages, responses, st.log ++ [w]⟩ i id key v := by
  obtain ⟨w', hw', hrest⟩ := h
  exact ⟨w', List.mem_append_left _ hw', hrest⟩

/-- A write at the server, refused or accepted. -/
theorem write_cases (writer : Writer) (user : String) (kind : SettingsKind) (bodyBytes : Nat) (content : Utf16)
    (version : Option Int) :
    (∃ e, st.write writer user kind bodyBytes content version = (st, .error e)) ∨
    ∃ doc, st.write writer user kind bodyBytes content version =
        ({ st with
          table := Function.update st.table (user, kind) (some doc)
          log := st.log ++ [⟨writer, (user, kind), content, version, doc.version⟩] }, .ok doc) ∧
      Acceptable kind bodyBytes content ∧
      doc = ⟨content, versionsOf st.table (user, kind) + 1⟩ ∧
      ∀ v ∈ version, v = versionsOf st.table (user, kind) := by
  cases hput : putDocument st.table user kind bodyBytes content version with
  | error e => exact .inl ⟨e, by rw [Editing.write, hput]⟩
  | ok result =>
    obtain ⟨doc, table⟩ := result
    obtain ⟨hacceptable, hwrite⟩ := putDocument_eq_ok hput
    obtain ⟨-, hversion, hdoc, rfl⟩ := writeDoc_eq_ok hwrite
    exact .inr ⟨doc, by rw [Editing.write, hput], hacceptable, hdoc, hversion⟩

theorem versionsOf_update (table : SettingsTable) (key key' : String × SettingsKind) (doc : SettingsDoc) :
    versionsOf (Function.update table key (some doc)) key' =
      if key' = key then doc.version else versionsOf table key' := by
  by_cases hkey : key' = key
  · simp [versionsOf, readDoc, hkey]
  · simp [versionsOf, readDoc, hkey]

/-- A write at the version it quotes, by a client that the pages know nothing of or by a request of a page. -/
theorem Consistent.accept (h : Consistent table₀ st) {w : DocWrite}
    (hversion : w.version = versionsOf st.table w.key + 1) (hquoted : ∀ v ∈ w.quoted, v = versionsOf st.table w.key)
    (hsent : ∀ i id : Nat, w.writer = .save i id → ∃ (page : EditorPage) (host : Host Int) (kind : DocumentKind)
      (json : String), st.pages[i]? = some page ∧ page.host = some host ∧ .put id kind json w.quoted ∈ host.wire ∧
      w.key = (page.user, settingsKind kind) ∧ w.content = utf16 json) :
    Consistent table₀ { st with
      table := Function.update st.table w.key (some ⟨w.content, w.version⟩)
      log := st.log ++ [w] } where
  ok := h.ok.concat (by rw [hversion, h.versions]) (by rw [← h.versions]; exact hquoted)
  versions key := by
    rw [versionsOf_update, CasLog.versionAfter_concat, ← h.versions]
    by_cases hkey : key = w.key
    · simp [hkey, hversion]
    · simp [hkey, Ne.symm hkey]
  table := by rw [docsAfter_concat, ← h.table]
  hosts := h.hosts
  sent w' hw' i id hwriter := by
    rcases List.mem_append.1 hw' with hold | hnew
    · exact h.sent w' hold i id hwriter
    · rw [List.mem_singleton.1 hnew] at hwriter ⊢
      exact hsent i id hwriter
  responses r hr doc hdoc := by
    obtain ⟨key, haccepted⟩ := h.responses r hr doc hdoc
    exact ⟨key, haccepted.concat⟩
  answers i page host id kind v hpage hhost hmem := (h.answers i page host id kind v hpage hhost hmem).concat

theorem Consistent.respond (h : Consistent table₀ st) (r : Response)
    (hr : ∀ doc, r.result = .ok doc → ∃ key, st.Accepted r.page r.id key doc.version) :
    Consistent table₀ { st with responses := st.responses ++ [r] } where
  ok := h.ok
  versions := h.versions
  table := h.table
  hosts := h.hosts
  sent := h.sent
  responses r' hr' doc hdoc := by
    rcases List.mem_append.1 hr' with hold | hnew
    · exact h.responses r' hold doc hdoc
    · cases List.mem_singleton.1 hnew
      exact hr doc hdoc
  answers := h.answers

theorem Consistent.serve (h : Consistent table₀ st) (hserve : st.serve i id = some st') : Consistent table₀ st' := by
  obtain ⟨page, hpage, hserve⟩ := Option.bind_eq_some_iff.1 hserve
  obtain ⟨host, hhost, hserve⟩ := Option.bind_eq_some_iff.1 hserve
  obtain ⟨s, hs, hserve⟩ := Option.bind_eq_some_iff.1 hserve
  obtain ⟨version, hsent, hserve⟩ := Option.bind_eq_some_iff.1 hserve
  have hput := ((wired (h.hosts i page host hpage hhost)).puts id s.kind s.json version).2 ⟨s, hs, rfl, rfl, hsent⟩
  rcases @write_cases st (.save i id) page.user (settingsKind s.kind)
    (Text.utf8 (putBody s.json version)).length (utf16 s.json) version with ⟨e, heq⟩ | ⟨doc, heq, -, rfl, hversion⟩
  · rw [heq] at hserve
    cases hserve
    exact h.respond _ (by rintro doc ⟨⟩)
  · rw [heq] at hserve
    cases hserve
    refine Consistent.respond (@Consistent.accept _ _ h ⟨.save i id, _, _, version, _⟩ rfl hversion ?_) _ ?_
    · rintro _ _ ⟨⟩
      exact ⟨page, host, s.kind, s.json, hpage, hhost, hput, rfl, rfl⟩
    · rintro doc ⟨⟩
      exact ⟨_, _, List.mem_append_right _ (List.mem_singleton_self _), rfl, rfl, rfl⟩

theorem Consistent.deliver (h : Consistent table₀ st) {n : Nat} {readable : Bool}
    (hdeliver : st.deliver n readable = some st') : Consistent table₀ st' := by
  obtain ⟨r, hr, hdeliver⟩ := Option.bind_eq_some_iff.1 hdeliver
  obtain ⟨page, page', hpage, hhost, rfl⟩ := onPage_eq_some hdeliver
  obtain ⟨host, host', hsome, hstep, rfl⟩ := onHost_eq_some hhost
  refine @Consistent.onHost _ _ _ _ h (.answer r.id (answerOf readable r.result)) _ _ hpage hsome hstep ?_
  intro id v heq
  obtain ⟨rfl, hanswer⟩ := SaveEvent.answer.inj heq
  -- the response names the version of an accepted save
  cases hresult : r.result with
  | error e => simp [hresult, answerOf] at hanswer
  | ok doc =>
    have hv : doc.version = v := by
      cases readable <;> simp [hresult, answerOf] at hanswer
      exact hanswer
    subst hv
    exact h.responses r (List.mem_of_getElem? hr) doc hresult

theorem Consistent.step (h : Consistent table₀ st) {e : DocEvent} (hstep : (editing table₀).step st e = some st') :
    Consistent table₀ st' := by
  -- a host's event that no version comes with
  have hquiet {i : Nat} {f : Host Int → Option (Host Int)} (ev : SaveEvent Int)
      (hf : ∀ (loaded : DocumentKind → Option Int) host, f host = (SaveQueue.page loaded).step host ev)
      (hev : ∀ id v, ev ≠ .answer id (.ok (some v))) (hdone : st.onPage i (·.onHost f) = some st') :
      Consistent table₀ st' := by
    obtain ⟨page, page', hpage, hhost, rfl⟩ := onPage_eq_some hdone
    obtain ⟨host, host', hsome, hmove, rfl⟩ := onHost_eq_some hhost
    exact h.onHost hpage hsome ((hf page.loaded host).symm.trans hmove) fun id v heq => absurd heq (hev id v)
  have hfetch {i : Nat} {kind : DocumentKind} {version : EditorPage → Option Int}
      (hdone : (st.onPage i fun page => page.fetch kind (version page)) = some st') : Consistent table₀ st' := by
    obtain ⟨page, page', hpage, hpage', rfl⟩ := onPage_eq_some hdone
    obtain ⟨⟨hnone, -⟩, heq⟩ := Option.ite_none_right_eq_some.1 hpage'
    cases heq
    have hnone := Option.isNone_iff_eq_none.1 hnone
    exact h.boot hpage hnone rfl fun host hsome => by cases hnone.symm.trans hsome
  cases e with
  | navigate user =>
    cases hstep
    exact h.navigate user
  | read i kind => exact hfetch hstep
  | missing i kind => exact hfetch hstep
  | start i =>
    obtain ⟨page, page', hpage, hpage', rfl⟩ := onPage_eq_some hstep
    obtain ⟨⟨hnone, -⟩, heq⟩ := Option.ite_none_right_eq_some.1 hpage'
    cases heq
    refine h.boot hpage (Option.isNone_iff_eq_none.1 hnone) rfl ?_
    rintro host ⟨⟩
    rfl
  | call i kind json => exact hquiet (.call kind json) (fun _ _ => rfl) (by rintro id v ⟨⟩) hstep
  | react i p job => exact hquiet (.react p job) (fun _ _ => rfl) (by rintro id v ⟨⟩) hstep
  | serve i id => exact h.serve hstep
  | reply n => exact h.deliver hstep
  | garbled n => exact h.deliver hstep
  | fail i id => exact hquiet (.answer id .failed) (fun _ _ => rfl) (by rintro id v ⟨⟩) hstep
  | put user kind bodyBytes content version =>
    rcases @write_cases st .other user kind bodyBytes content version with ⟨e, heq⟩ | ⟨doc, heq, -, rfl, hversion⟩
    · cases hstep
      rw [heq]
      exact h
    · cases hstep
      rw [heq]
      exact @Consistent.accept _ _ h ⟨.other, _, _, version, _⟩ rfl hversion (by rintro i id ⟨⟩)

theorem consistent (h : (editing table₀).Reach System.free st) : Consistent table₀ st := by
  refine h.invariant ?_ fun _ _ _ _ ih _ hstep => ih.step hstep
  rintro _ rfl
  constructor
  · exact CasLog.ok_nil
  · exact fun key => CasLog.versionAfter_nil.symm
  · rfl
  all_goals simp

/-- What a save of a page quoted: what the page loaded, or what a save of its own was accepted at. -/
theorem Consistent.quoted (h : Consistent table₀ st) {kind : DocumentKind} {v₀ : Int}
    (hpage : st.pages[i]? = some page) (hloaded : page.fetched kind = some (some v₀)) {w : DocWrite} (hw : w ∈ st.log)
    (hwriter : w.writer = .save i id) (hkey : w.key = (page.user, settingsKind kind)) :
    ∃ v, w.quoted = some v ∧ (v = v₀ ∨ ∃ id, st.Accepted i id (page.user, settingsKind kind) v) := by
  obtain ⟨q, host, kind', json, hq, hhost, hput, hkey', -⟩ := h.sent w hw i id hwriter
  cases hpage.symm.trans hq
  have hkind : kind' = kind := settingsKind_inj (congrArg Prod.snd (hkey'.symm.trans hkey))
  subst hkind
  obtain ⟨before, after, hwire⟩ := List.append_of_mem hput
  have hcarries := (wired (h.hosts i page host hpage hhost)).carries before after id kind' json w.quoted hwire
  have hhas : page.loaded kind' = some v₀ := by rw [EditorPage.loaded, hloaded]; rfl
  have hsome : (page.loaded kind').isSome := by rw [hhas]; rfl
  obtain ⟨v, hv⟩ := Option.isSome_iff_exists.1 (lastAcknowledged_isSome hsome before)
  refine ⟨v, hcarries.trans hv, (lastAcknowledged_eq_some hv).imp (fun heq => ?_) fun ⟨id', hmem⟩ => ⟨id', ?_⟩⟩
  · exact Option.some.inj (heq.symm.trans hhas)
  · exact h.answers i page host id' kind' v hpage hhost (hwire ▸ List.mem_append_left _ hmem)

/-- The documents are what the accepted writes left, each of which replaced the version it quoted; and of the writes
above what a page loaded, all up to the page's last accepted save are its own: once another client has written, none of
the page's saves is accepted. -/
theorem saves_overwrite_own (h : (editing table₀).Reach System.free st) :
    st.table = docsAfter table₀ st.log ∧ CasLog.Ok (versionsOf table₀) st.log ∧
    ∀ i page kind v₀, st.pages[i]? = some page → page.fetched kind = some (some v₀) →
      ∀ w ∈ st.log, (∃ id, w.writer = .save i id) → w.key = (page.user, settingsKind kind) →
        v₀ < w.version ∧ ∀ w' ∈ st.log, w'.key = w.key → (¬ ∃ id, w'.writer = .save i id) → v₀ < w'.version →
          w.version < w'.version := by
  have hc := consistent h
  refine ⟨hc.table, hc.ok, fun i page kind v₀ hpage hloaded w hw hwriter hkey => ?_⟩
  have hseen : ∀ u ∈ st.log, (∃ id, u.writer = .save i id) → u.key = (page.user, settingsKind kind) →
      ∃ v, u.quoted = some v ∧ (v = v₀ ∨ ∃ u' ∈ st.log, (∃ id, u'.writer = .save i id) ∧
        u'.key = (page.user, settingsKind kind) ∧ u'.version = v) := by
    rintro u hu ⟨id, hid⟩ hukey
    obtain ⟨v, hv, hor⟩ := hc.quoted hpage hloaded hu hid hukey
    refine ⟨v, hv, hor.imp_right ?_⟩
    rintro ⟨id', u', hu', hwriter', hkey', hversion'⟩
    exact ⟨u', hu', ⟨id', hwriter'⟩, hkey', hversion'⟩
  obtain ⟨hlt, hown⟩ := hc.ok.own_between (fun writer => ∃ id, writer = .save i id) hseen hw hwriter hkey
  refine ⟨hlt, fun w' hw' hkey' hother hlt' => Int.not_le.1 fun hle => hother ?_⟩
  exact hown w' hw' (hkey'.trans hkey) hlt' hle

/-- Two pages of a user load the settings and save them; the second's save is refused. -/
def twoPages : List DocEvent := [.navigate "u", .navigate "u", .read 0 .settings, .read 0 .keymap, .read 1 .settings,
  .read 1 .keymap, .start 0, .start 1, .call 0 .settings "\x7b\x7d", .call 1 .settings "[]", .serve 0 0, .reply 0,
  .serve 1 0, .reply 1]

theorem saves_overwrite_own_twoPages : ∃ st, (editing fun _ => none).Reach System.free st ∧
    st.log.map (fun w => (w.writer, w.version)) = [(.save 0 0, 1)] ∧
    (st.table = docsAfter (fun _ => none) st.log ∧ CasLog.Ok (versionsOf fun _ => none) st.log) := by
  have hexec : ((editing fun _ => none).exec ⟨fun _ => none, [], [], []⟩ twoPages).any fun st =>
      decide (st.log.map (fun w => (w.writer, w.version)) = [(.save 0 0, 1)]) := by decide
  obtain ⟨st, hst, hlog⟩ := (Option.any_eq_true ..).1 hexec
  have hreach := System.reach_of_exec rfl hst
  obtain ⟨htable, hok, -⟩ := saves_overwrite_own hreach
  exact ⟨st, hreach, of_decide_eq_true hlog, htable, hok⟩

end

end Zedspaces.Web.DocumentSaves
