/-
The block of `key=value` entries a child is started with (`server.rs`), and which names in it the repository sets.
The filter reads the keys of the literals, the operating system reads the names in front of the first `=`: a key
that holds a `=` sets another name than the one that was let through (`outside_sets_reserved_name`).
-/
import Zedspaces.Supervisor.ChildEnv

namespace Zedspaces.Supervisor

open Lib Std

/-! ## Origins -/

inductive Origin
  | base | manifestEnv | remoteEnv | agent
  deriving DecidableEq, Repr

def tag (origin : Origin) (value : Text) : Text × Origin := (value, origin)

/-- The environment of `Boot::run`, every value with its origin. -/
def bootChildOrigins (config : ChildEnvConfig) (vars : List (Text × Text)) (manifestEnv remoteEnv : EnvMap Text) :
    EnvMap (Text × Origin) :=
  childEnvFrom (tag .agent) config (vars.map fun e => (e.1, tag .base e.2)) (manifestEnv.map fun _ => tag .manifestEnv)
    ((expandRemoteEnv remoteEnv (expansionBase vars manifestEnv)).map fun _ => tag .remoteEnv)

section
variable {α β : Type} {f : α → β}

theorem collectEnv_map (entries : List (Text × α)) (name : Text) :
    (collectEnv (entries.map fun e => (e.1, f e.2)))[name]? = (collectEnv entries)[name]?.map f := by
  induction entries using List.reverseRecOn with
  | nil => rfl
  | append_singleton entries e ih =>
    unfold collectEnv at ih ⊢
    rw [List.map_append, List.map_singleton, Maps.writeAll_concat, Maps.writeAll_concat]
    dsimp only
    rw [Maps.getElem?_insert, Maps.getElem?_insert, ih]
    split <;> rfl

theorem envLiteral_map (manifestEnv remoteEnv : EnvMap α) (name : Text) :
    envLiteral (manifestEnv.map fun _ => f) (remoteEnv.map fun _ => f) name =
      (envLiteral manifestEnv remoteEnv name).map f := by
  unfold envLiteral
  rw [ExtTreeMap.getElem?_map, ExtTreeMap.getElem?_map]
  split
  · cases remoteEnv[name]? <;> rfl
  · rfl

theorem inherited_map (own : Text → α) (config : ChildEnvConfig) (base : List (Text × α)) (name : Text) :
    inherited (f ∘ own) config (base.map fun e => (e.1, f e.2)) name = (inherited own config base name).map f := by
  unfold inherited
  rw [collectEnv_map, Option.map_or, Option.map_map]
  congr 1
  split
  · rfl
  · split
    · rfl
    · split <;> rfl

/-- The environment is made of the values without looking at them. -/
theorem childEnvFrom_map (own : Text → α) (config : ChildEnvConfig) (base : List (Text × α))
    (manifestEnv remoteEnv : EnvMap α) :
    childEnvFrom (f ∘ own) config (base.map fun e => (e.1, f e.2)) (manifestEnv.map fun _ => f)
        (remoteEnv.map fun _ => f) =
      (childEnvFrom own config base manifestEnv remoteEnv).map fun _ => f := by
  refine ExtTreeMap.ext_getElem? fun name => ?_
  rw [ExtTreeMap.getElem?_map, getElem?_childEnvFrom, getElem?_childEnvFrom, envLiteral_map, inherited_map, Option.map_or]

end

theorem map_fst_tag (origin : Origin) (env : EnvMap Text) :
    ((env.map fun _ => tag origin).map fun _ => Prod.fst) = env := by
  refine ExtTreeMap.ext_getElem? fun name => ?_
  rw [ExtTreeMap.getElem?_map, ExtTreeMap.getElem?_map]
  cases env[name]? <;> rfl

/-- Without its origins it is the environment of `Boot::run`. -/
theorem bootChildOrigins_fst (config : ChildEnvConfig) (vars : List (Text × Text))
    (manifestEnv remoteEnv : EnvMap Text) :
    ((bootChildOrigins config vars manifestEnv remoteEnv).map fun _ => Prod.fst) =
      bootChildEnv config vars manifestEnv remoteEnv := by
  unfold bootChildOrigins bootChildEnv
  rw [← childEnvFrom_map, map_fst_tag, map_fst_tag, List.map_map]
  congr 1
  exact List.map_id _

/-! ## The block -/

def nul : Char := Char.ofNat 0

def entryText (name value : Text) : Text := name ++ '=' :: value

/-- The name of an entry as the operating system reads it. -/
def entryName (entry : Text) : Text := entry.takeWhile (· ≠ '=')

theorem entryName_entryText (name value : Text) : entryName (entryText name value) = entryName name := by
  unfold entryName entryText
  rw [List.takeWhile_append]
  split
  · rename_i hall
    rw [List.takeWhile_cons_of_neg (by simp), List.append_nil]
    exact (List.IsPrefix.eq_of_length (List.takeWhile_prefix _) hall).symm
  · rfl

/-- The entries of an environment, in the order of their names. -/
def environEntries {α : Type} (value : α → Text) (env : EnvMap α) : List (Text × α) :=
  env.toList.map fun e => (entryText e.1 (value e.2), e.2)

/-- The block a child is started with; none of its entries may hold a NUL. -/
def environBlock {α : Type} (value : α → Text) (env : EnvMap α) : Option (List (Text × α)) :=
  if (environEntries value env).any fun entry => entry.1.contains nul then none else some (environEntries value env)

section
variable {α : Type} {value : α → Text} {env : EnvMap α} {block : List (Text × α)} {entry : Text × α}

theorem nul_not_mem_entryText {name text : Text} : nul ∉ entryText name text ↔ nul ∉ name ∧ nul ∉ text := by
  have hsep : nul ≠ '=' := by decide
  simp only [entryText, List.mem_append, List.mem_cons, not_or, hsep, not_false_eq_true, true_and]

theorem mem_environEntries :
    entry ∈ environEntries value env ↔ ∃ (name : Text) (v : α), env[name]? = some v ∧
      entry = (entryText name (value v), v) := by
  simp only [environEntries, List.mem_map, Prod.exists, ExtTreeMap.mem_toList_iff_getElem?_eq_some,
    eq_comm (a := entry)]

theorem eq_of_environBlock (h : environBlock value env = some block) : block = environEntries value env := by
  unfold environBlock at h
  split at h
  · cases h
  · exact (Option.some.inj h).symm

/-- A child is started if no text holds a NUL. -/
theorem environBlock_isSome : (environBlock value env).isSome = true ↔
    ∀ (name : Text) (v : α), env[name]? = some v → nul ∉ name ∧ nul ∉ value v := by
  have hany : (environEntries value env).any (fun entry => entry.1.contains nul) = true ↔
      ∃ entry ∈ environEntries value env, nul ∈ entry.1 := by
    simp only [List.any_eq_true, List.contains_iff_mem]
  unfold environBlock
  split
  · rename_i hnul
    obtain ⟨entry, hmem, hentry⟩ := hany.1 hnul
    obtain ⟨name, v, hget, rfl⟩ := mem_environEntries.1 hmem
    constructor
    · rintro ⟨⟩
    · exact fun h => absurd hentry (nul_not_mem_entryText.2 (h name v hget))
  · rename_i hnul
    constructor
    · intro _ name v hget
      refine nul_not_mem_entryText.1 fun hmem => hnul (hany.2 ⟨_, mem_environEntries.2 ⟨name, v, hget, rfl⟩, hmem⟩)
    · exact fun _ => rfl

end

/-! ## Reserved names -/

/-- A name no literal may set: a reserved one, a dangerous one, or one of the platform's. -/
def ReservedName (name : Text) : Prop :=
  name ∈ reservedEnvNames ∨ (∃ prefix_ ∈ dangerousEnvPrefixes, prefix_ <+: name) ∨ name ∈ dangerousEnvNames ∨
    PlatformName name

instance : DecidablePred ReservedName := fun name => inferInstanceAs
  (Decidable (_ ∨ (∃ prefix_ ∈ dangerousEnvPrefixes, prefix_ <+: name) ∨ _ ∨ _))

theorem manifestEnvKeyAllowed_iff {name : Text} : manifestEnvKeyAllowed name = true ↔ ¬ ReservedName name := by
  have hplatform : (zsPrefix.isPrefixOf name && !passthroughZsVars.contains name) = true ↔ PlatformName name := by
    rw [PlatformName, Bool.and_eq_true, Bool.not_eq_true', List.isPrefixOf_iff_prefix, ← Bool.not_eq_true,
      List.contains_iff_mem]
  have hdangerous : ((dangerousEnvPrefixes.any fun prefix_ => prefix_.isPrefixOf name) ||
      dangerousEnvNames.contains name) = true ↔
      (∃ prefix_ ∈ dangerousEnvPrefixes, prefix_ <+: name) ∨ name ∈ dangerousEnvNames := by
    simp only [Bool.or_eq_true, List.any_eq_true, List.isPrefixOf_iff_prefix, List.contains_iff_mem]
  unfold manifestEnvKeyAllowed ReservedName
  by_cases h : PlatformName name
  · rw [if_pos (hplatform.2 h)]
    constructor
    · rintro ⟨⟩
    · exact fun hnot => absurd (.inr (.inr (.inr h))) hnot
  · rw [if_neg fun hp => h (hplatform.1 hp)]
    by_cases hd : (∃ prefix_ ∈ dangerousEnvPrefixes, prefix_ <+: name) ∨ name ∈ dangerousEnvNames
    · rw [if_pos (hdangerous.2 hd)]
      constructor
      · rintro ⟨⟩
      · exact fun hnot => absurd (.inr (or_assoc.1 (.inl hd))) hnot
    · rw [if_neg fun hp => hd (hdangerous.1 hp), Bool.not_eq_true', ← Bool.not_eq_true, List.contains_iff_mem]
      constructor
      · rintro hreserved (h' | h' | h' | h')
        · exact hreserved h'
        · exact hd (.inl h')
        · exact hd (.inr h')
        · exact h h'
      · exact fun hnot hreserved => hnot (.inl hreserved)

/-- A reserved name in the block of a child comes from the process environment or from the supervisor. -/
def ReservedFromInside (config : ChildEnvConfig) (vars : List (Text × Text)) (manifestEnv remoteEnv : EnvMap Text) :
    Prop :=
  ∀ block, environBlock Prod.fst (bootChildOrigins config vars manifestEnv remoteEnv) = some block →
    ∀ entry ∈ block, ReservedName (entryName entry.1) → entry.2.2 = .base ∨ entry.2.2 = .agent

/-- Nothing keeps a child from being started: no literal that reaches it holds a NUL, and neither does the user's
name where it is needed. -/
def Startable (config : ChildEnvConfig) (vars : List (Text × Text)) (manifestEnv remoteEnv : EnvMap Text) : Prop :=
  (∀ name value, envLiteral manifestEnv (expandRemoteEnv remoteEnv (expansionBase vars manifestEnv)) name = some value →
    nul ∉ name ∧ nul ∉ value) ∧
  (nul ∉ config.runtimeUserName ∨ ∃ value, ("USER".toList, value) ∈ vars)

section
variable {config : ChildEnvConfig} {vars : List (Text × Text)} {manifestEnv remoteEnv : EnvMap Text} {name : Text}

theorem mem_of_collectEnv {α : Type} {entries : List (Text × α)} {v : α} (h : (collectEnv entries)[name]? = some v) :
    (name, v) ∈ entries := by
  rcases Maps.getElem?_writeAll.1 h with ⟨e, he, rfl⟩ | ⟨-, hempty⟩
  · obtain ⟨hmem, hkey⟩ := he.mem
    cases hkey
    exact hmem
  · cases hempty

/-- A literal of the manifest or of `remoteEnv` stays one. -/
theorem envLiteral_origin {v : Text × Origin}
    (h : envLiteral (manifestEnv.map fun _ => tag .manifestEnv) (remoteEnv.map fun _ => tag .remoteEnv) name = some v) :
    envLiteral manifestEnv remoteEnv name = some v.1 ∧ v.2 ≠ .base ∧ v.2 ≠ .agent := by
  unfold envLiteral at h ⊢
  rw [ExtTreeMap.getElem?_map, ExtTreeMap.getElem?_map] at h
  split at h
  · rename_i hname
    rw [if_pos hname]
    cases hremote : remoteEnv[name]? with
    | some value =>
      rw [hremote] at h
      cases h
      exact ⟨rfl, by rintro ⟨⟩, by rintro ⟨⟩⟩
    | none =>
      rw [hremote] at h
      cases hmanifest : manifestEnv[name]? with
      | some value =>
        rw [hmanifest] at h
        cases h
        exact ⟨rfl, by rintro ⟨⟩, by rintro ⟨⟩⟩
      | none => rw [hmanifest] at h; cases h
  · cases h

/-- What a child gets without literals is inherited or the supervisor's. -/
theorem inherited_origin {v : Text × Origin}
    (h : inherited (tag .agent) config (vars.map fun e => (e.1, tag .base e.2)) name = some v) :
    v.2 = .base ∨ v.2 = .agent := by
  unfold inherited at h
  rcases Option.or_eq_some_iff.1 h with h | ⟨-, h⟩
  · split at h
    · cases h; exact .inr rfl
    · split at h
      · cases h; exact .inr rfl
      · split at h
        · cases h
        · obtain ⟨e, -, he⟩ := List.mem_map.1 (mem_of_collectEnv h)
          cases he
          exact .inl rfl
  · obtain ⟨value, -, rfl⟩ := Option.map_eq_some_iff.1 h
    exact .inr rfl

theorem collectEnv_ne_none {α : Type} {entries : List (Text × α)} {v : α} (h : (name, v) ∈ entries) :
    (collectEnv entries)[name]? ≠ none := by
  obtain ⟨e, -, hget⟩ : ∃ e, Maps.LastWriter (fun e : Text × α => some e.1) entries name e ∧
      (collectEnv entries)[name]? = some e.2 := Maps.getElem?_writeAll_isSome h rfl
  intro hnone
  cases hget.symm.trans hnone

/-- The name of the user the supervisor runs as reaches a child exactly if the environment has none. -/
theorem inherited_user : inherited id config vars "USER".toList =
    some ((collectEnv vars)["USER".toList]?.getD config.runtimeUserName) := by
  have hfile : controlSecretFileVar ≠ "USER".toList := String.toList_inj.not.2 (by simp)
  have hurl : supervisorUrlVar ≠ "USER".toList := String.toList_inj.not.2 (by simp)
  have hstripped : "USER".toList ∉ strippedChildVars := by
    rw [strippedChildVars, Text.mem_literals]
    simp
  have hlookup : (childDefaults config).lookup "USER".toList = some config.runtimeUserName := rfl
  unfold inherited
  rw [if_neg hfile, if_neg hurl, if_neg hstripped, hlookup]
  cases (collectEnv vars)["USER".toList]? <;> rfl

theorem nul_not_mem_childDefaults (hhome : nul ∉ config.home) :
    ∀ e ∈ childDefaults config, e.1 ≠ "USER".toList → nul ∉ e.1 ∧ nul ∉ e.2 := by
  unfold childDefaults
  simp only [List.forall_mem_cons]
  refine ⟨fun _ => ⟨Text.notMem_literal (by decide), Text.notMem_literal (by decide)⟩, fun h => absurd rfl h,
    fun _ => ⟨Text.notMem_literal (by decide), hhome⟩, fun _ => ⟨Text.notMem_literal (by decide), ?_⟩,
    fun _ => ⟨Text.notMem_literal (by decide), Text.notMem_literal (by decide)⟩, ?_⟩
  · rw [String.toList_append]
    exact List.not_mem_append (Text.notMem_literal (by decide)) (Text.notMem_literal (by decide))
  rintro _ ⟨⟩

theorem nul_not_mem_inherited (hvars : ∀ e ∈ vars, nul ∉ e.1 ∧ nul ∉ e.2)
    (hconfig : nul ∉ config.localApiListen ∧ nul ∉ config.controlSecretFile ∧ nul ∉ config.home)
    (huser : nul ∉ config.runtimeUserName ∨ ∃ value, ("USER".toList, value) ∈ vars) {value : Text}
    (h : inherited id config vars name = some value) : nul ∉ name ∧ nul ∉ value := by
  obtain ⟨hlisten, hfile, hhome⟩ := hconfig
  by_cases hname : name = "USER".toList
  · subst hname
    rw [inherited_user] at h
    cases h
    cases hget : (collectEnv vars)["USER".toList]? with
    | some value => exact hvars _ (mem_of_collectEnv hget)
    | none =>
      rcases huser with huser | ⟨value, hmem⟩
      · exact ⟨by decide, huser⟩
      · exact absurd hget (collectEnv_ne_none hmem)
  · unfold inherited at h
    rcases Option.or_eq_some_iff.1 h with h | ⟨-, h⟩
    · split at h
      · rename_i heq
        cases h
        exact ⟨heq ▸ (by decide), hfile⟩
      · split at h
        · rename_i heq
          cases h
          refine ⟨heq ▸ (by decide), fun hmem => ?_⟩
          rcases List.mem_append.1 hmem with hmem | hmem
          · exact absurd hmem (by decide)
          · exact hlisten hmem
        · split at h
          · cases h
          · exact hvars _ (mem_of_collectEnv h)
    · obtain ⟨value, hlookup, rfl⟩ := Option.map_eq_some_iff.1 h
      obtain ⟨l₁, l₂, hsplit, -⟩ := List.lookup_eq_some_iff.1 hlookup
      exact nul_not_mem_childDefaults hhome (name, value) (by rw [hsplit]; simp) hname

/-- A child is started if and only if nothing keeps it from being started. -/
theorem startable_iff (hvars : ∀ e ∈ vars, nul ∉ e.1 ∧ nul ∉ e.2)
    (hconfig : nul ∉ config.localApiListen ∧ nul ∉ config.controlSecretFile ∧ nul ∉ config.home) :
    (environBlock Prod.fst (bootChildOrigins config vars manifestEnv remoteEnv)).isSome = true ↔
      Startable config vars manifestEnv remoteEnv := by
  have hlookup : ∀ name : Text, (bootChildOrigins config vars manifestEnv remoteEnv)[name]?.map Prod.fst =
      (envLiteral manifestEnv (expandRemoteEnv remoteEnv (expansionBase vars manifestEnv)) name).or
        (inherited id config vars name) := by
    intro name
    rw [← getElem?_childEnvFrom, ← bootChildEnv, ← bootChildOrigins_fst, ExtTreeMap.getElem?_map]
  rw [environBlock_isSome]
  constructor
  · intro h
    have hget : ∀ name value, (envLiteral manifestEnv (expandRemoteEnv remoteEnv (expansionBase vars manifestEnv)) name).or
        (inherited id config vars name) = some value → nul ∉ name ∧ nul ∉ value := by
      intro name value hvalue
      rw [← hlookup] at hvalue
      obtain ⟨v, hv, rfl⟩ := Option.map_eq_some_iff.1 hvalue
      exact h name v hv
    refine ⟨fun name value hvalue => hget name value (by rw [hvalue]; rfl), ?_⟩
    by_contra hnot
    obtain ⟨hnul, hmem⟩ := not_or.1 hnot
    refine hnul (hget "USER".toList config.runtimeUserName ?_).2
    have hnone : (collectEnv vars)["USER".toList]? = none := by
      cases hget : (collectEnv vars)["USER".toList]? with
      | none => rfl
      | some value => exact absurd ⟨value, mem_of_collectEnv hget⟩ hmem
    have huser : manifestEnvKeyAllowed "USER".toList = false :=
      Bool.eq_false_iff.2 fun h => manifestEnvKeyAllowed_iff.1 h (.inl (Text.mem_literals.2 (by simp)))
    rw [inherited_user, hnone, envLiteral, huser]
    rfl
  · rintro ⟨hliteral, huser⟩ name v hv
    have hvalue := hlookup name
    rw [hv] at hvalue
    rcases Option.or_eq_some_iff.1 hvalue.symm with h | ⟨-, h⟩
    · exact hliteral name v.1 h
    · exact nul_not_mem_inherited hvars hconfig huser h

/-- Every literal the filter lets through reaches the child. -/
theorem envLiteral_reaches (hname : manifestEnvKeyAllowed name = true) (hmem : name ∈ manifestEnv ∨ name ∈ remoteEnv) :
    ∃ v, (bootChildOrigins config vars manifestEnv remoteEnv)[name]? = some v ∧ v.2 ≠ .base ∧ v.2 ≠ .agent := by
  set literals := envLiteral (manifestEnv.map fun _ => tag .manifestEnv)
    ((expandRemoteEnv remoteEnv (expansionBase vars manifestEnv)).map fun _ => tag .remoteEnv) name with hliterals
  have hsome : literals ≠ none := by
    rw [hliterals, envLiteral, if_pos hname, ExtTreeMap.getElem?_map, ExtTreeMap.getElem?_map, expandRemoteEnv,
      ExtTreeMap.getElem?_map]
    simp only [ExtTreeMap.mem_iff_isSome_getElem?, Option.isSome_iff_exists] at hmem
    rcases hmem with ⟨value, h⟩ | ⟨value, h⟩
    · rw [h]
      cases remoteEnv[name]? <;> rintro ⟨⟩
    · rw [h]
      rintro ⟨⟩
  obtain ⟨v, hv⟩ := Option.ne_none_iff_exists'.1 hsome
  refine ⟨v, ?_, (envLiteral_origin (hliterals ▸ hv)).2⟩
  rw [bootChildOrigins, getElem?_childEnvFrom, ← hliterals, hv]
  rfl

/-- A child that is started gets the name in front of a `=` of every key the filter lets through. -/
theorem not_reservedFromInside (hvars : ∀ e ∈ vars, nul ∉ e.1 ∧ nul ∉ e.2)
    (hconfig : nul ∉ config.localApiListen ∧ nul ∉ config.controlSecretFile ∧ nul ∉ config.home)
    (hstart : Startable config vars manifestEnv remoteEnv) (hmem : name ∈ manifestEnv ∨ name ∈ remoteEnv)
    (hname : ¬ ReservedName name) (hreserved : ReservedName (entryName name)) :
    ¬ ReservedFromInside config vars manifestEnv remoteEnv := by
  intro h
  obtain ⟨block, hblock⟩ := Option.isSome_iff_exists.1 ((startable_iff hvars hconfig).2 hstart)
  obtain ⟨v, hv, hbase, hagent⟩ : ∃ v, (bootChildOrigins config vars manifestEnv remoteEnv)[name]? = some v ∧
      v.2 ≠ .base ∧ v.2 ≠ .agent := envLiteral_reaches (manifestEnvKeyAllowed_iff.2 hname) hmem
  have hentry : (entryText name v.1, v) ∈ block := by
    rw [eq_of_environBlock hblock]
    exact mem_environEntries.2 ⟨name, v, hv, rfl⟩
  rcases h block hblock _ hentry (by rw [entryName_entryText]; exact hreserved) with h | h
  · exact hbase h
  · exact hagent h

end

/-- A child gets a reserved name from outside exactly if it is started with a literal whose key is let through and
holds a reserved name in front of a `=`. The texts of the supervisor's own environment hold no NUL. -/
theorem outside_sets_reserved_name {config : ChildEnvConfig} {vars : List (Text × Text)}
    (hvars : ∀ e ∈ vars, nul ∉ e.1 ∧ nul ∉ e.2)
    (hconfig : nul ∉ config.localApiListen ∧ nul ∉ config.controlSecretFile ∧ nul ∉ config.home)
    (manifestEnv remoteEnv : EnvMap Text) :
    ReservedFromInside config vars manifestEnv remoteEnv ↔
      (Startable config vars manifestEnv remoteEnv → ∀ name, name ∈ manifestEnv ∨ name ∈ remoteEnv →
        ¬ ReservedName name → ¬ ReservedName (entryName name)) := by
  constructor
  · intro h hstart name hmem hname hreserved
    exact not_reservedFromInside hvars hconfig hstart hmem hname hreserved h
  · intro h block hblock entry hentry hreserved
    have hstart : Startable config vars manifestEnv remoteEnv :=
      (startable_iff hvars hconfig).1 (by rw [hblock]; rfl)
    rw [eq_of_environBlock hblock] at hentry
    obtain ⟨name, v, hv, rfl⟩ := mem_environEntries.1 hentry
    rw [entryName_entryText] at hreserved
    rw [bootChildOrigins, getElem?_childEnvFrom] at hv
    rcases Option.or_eq_some_iff.1 hv with hv | ⟨-, hv⟩
    · exfalso
      have hvalue := (envLiteral_origin hv).1
      unfold envLiteral at hvalue
      split at hvalue
      · rename_i hname
        refine h hstart name ?_ (manifestEnvKeyAllowed_iff.1 hname) hreserved
        rw [expandRemoteEnv, ExtTreeMap.getElem?_map] at hvalue
        simp only [ExtTreeMap.mem_iff_isSome_getElem?]
        cases hremote : remoteEnv[name]? with
        | some value => exact .inr rfl
        | none =>
          rw [hremote] at hvalue
          exact .inl (Option.isSome_iff_exists.2 ⟨_, hvalue⟩)
      · cases hvalue
    · exact inherited_origin hv

theorem nul_not_mem_sampleChildEnvConfig : nul ∉ sampleChildEnvConfig.localApiListen ∧
    nul ∉ sampleChildEnvConfig.controlSecretFile ∧ nul ∉ sampleChildEnvConfig.home :=
  ⟨Text.notMem_literal (by decide), Text.notMem_literal (by decide), Text.notMem_literal (by decide)⟩

theorem outside_sets_reserved_name_foo :
    ReservedFromInside sampleChildEnvConfig [("HOME".toList, "/h".toList)] ∅ (ExtTreeMap.insert ∅ "FOO=1".toList []) := by
  refine (outside_sets_reserved_name (by decide) nul_not_mem_sampleChildEnvConfig _ _).2 fun _ name hmem _ => ?_
  rcases hmem with hmem | hmem
  · exact absurd hmem ExtTreeMap.not_mem_empty
  · rcases ExtTreeMap.mem_insert.1 hmem with hname | hmem
    · rw [← LawfulEqCmp.compare_eq_iff_eq.1 hname]
      decide
    · exact absurd hmem ExtTreeMap.not_mem_empty

/-- The key `BASH_ENV=/tmp/x` is not reserved, its entry sets `BASH_ENV`. -/
theorem remote_env_sets_bash_env : ¬ ∀ (config : ChildEnvConfig) (vars : List (Text × Text))
    (manifestEnv remoteEnv : EnvMap Text), ReservedFromInside config vars manifestEnv remoteEnv := by
  intro h
  have hkey : "BASH_ENV=/tmp/x".toList ∈ (ExtTreeMap.insert ∅ "BASH_ENV=/tmp/x".toList ['1'] : EnvMap Text) :=
    ExtTreeMap.mem_insert_self
  have hstart : Startable sampleChildEnvConfig [] ∅ (ExtTreeMap.insert ∅ "BASH_ENV=/tmp/x".toList ['1']) := by
    refine ⟨fun name value hvalue => ?_, .inl (by decide)⟩
    unfold envLiteral at hvalue
    split at hvalue
    · rw [expandRemoteEnv, ExtTreeMap.getElem?_map, Maps.getElem?_insert] at hvalue
      split at hvalue
      · next hname =>
        cases hvalue
        rw [← hname]
        exact ⟨Text.notMem_literal (by decide), by decide +kernel⟩
      · cases hvalue
    · cases hvalue
  exact not_reservedFromInside (by rintro _ ⟨⟩) nul_not_mem_sampleChildEnvConfig hstart (.inr hkey)
    (by decide) (.inl (by decide)) (h sampleChildEnvConfig [] ∅ _)

end Zedspaces.Supervisor
