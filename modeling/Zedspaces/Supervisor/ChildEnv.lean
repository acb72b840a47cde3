/-
The environment of the processes the supervisor starts (`config.rs`, `manifest.rs`, `start.rs`): its own environment,
the literals of the manifest and the expanded `remoteEnv` of the repository, without the platform's secrets. One
lookup says where every variable comes from (`getElem?_childEnvFrom`): the literals decide a name the filter lets
through, everything else is inherited or the supervisor's own.
-/
import Mathlib.Data.List.Infix
import Zedspaces.Lib.Maps
import Zedspaces.Lib.Text

namespace Zedspaces.Supervisor

open Lib Std

abbrev EnvMap (α : Type) := ExtTreeMap Text α

/-! ## Names -/

def zsPrefix : Text := "ZS_".toList

def strippedChildVars : List Text :=
  ["ZS_SANDBOX_TOKEN", "ZS_CONTROL_URL", "ZS_CONTROL_PLANE_URL", "ZS_BYPASS_SECRET", "ZS_CONTROL_SECRET"].map
    String.toList

def passthroughZsVars : List Text := ["ZS_WORKSPACE_ID", "ZS_SANDBOX_NAME", "ZS_REGION"].map String.toList

def reservedEnvNames : List Text :=
  ["LD_PRELOAD", "LD_LIBRARY_PATH", "BASH_ENV", "ENV", "PROMPT_COMMAND", "GIT_ASKPASS", "SSH_ASKPASS",
   "GIT_CONFIG_PARAMETERS", "HOME", "PATH", "USER", "SHELL"].map String.toList

def dangerousEnvPrefixes : List Text := ["LD_", "GIT_", "PERL5"].map String.toList

def dangerousEnvNames : List Text := ["NODE_OPTIONS", "PYTHONSTARTUP", "PYTHONPATH"].map String.toList

/-- A name of the platform's other than the identity names. -/
def PlatformName (name : Text) : Prop := zsPrefix <+: name ∧ name ∉ passthroughZsVars

instance : DecidablePred PlatformName := fun _ => inferInstanceAs (Decidable (_ ∧ _))

/-- Whether a literal of the manifest or of `remoteEnv` may be set under this key. -/
def manifestEnvKeyAllowed (key : Text) : Bool :=
  if zsPrefix.isPrefixOf key && !passthroughZsVars.contains key then false
  else if (dangerousEnvPrefixes.any fun prefix_ => prefix_.isPrefixOf key) || dangerousEnvNames.contains key then false
  else !reservedEnvNames.contains key

/-- Whether `${containerEnv:name}` may read `name`. -/
def envRefAllowed (name : Text) : Bool := !zsPrefix.isPrefixOf name || passthroughZsVars.contains name

theorem envRefAllowed_iff {name : Text} : envRefAllowed name = true ↔ ¬ PlatformName name := by
  rw [envRefAllowed, PlatformName, Bool.or_eq_true, Bool.not_eq_true', ← Bool.not_eq_true, List.isPrefixOf_iff_prefix,
    List.contains_iff_mem]
  tauto

theorem platformName_of_stripped {name : Text} (h : name ∈ strippedChildVars) : PlatformName name := by
  revert name
  decide

/-! ## References in `remoteEnv` -/

def openRef : Text := ['$', '{']

/-- The text before and after the first `${`. -/
def splitRef : Text → Option (Text × Text)
  | [] => none
  | c :: t => match Text.stripPrefix openRef (c :: t) with
    | some after => some ([], after)
    | none => (splitRef t).map fun p => (c :: p.1, p.2)

theorem splitRef_eq_some {value before after : Text} (h : splitRef value = some (before, after)) :
    value = before ++ (openRef ++ after) := by
  induction value generalizing before with
  | nil => cases h
  | cons c t ih =>
    unfold splitRef at h
    split at h
    · rename_i rest hstrip
      obtain ⟨rfl, rfl⟩ := Prod.mk.inj (Option.some.inj h)
      rw [List.nil_append]
      exact Text.stripPrefix_eq_some.1 hstrip
    · obtain ⟨⟨before', after'⟩, hsplit, heq⟩ := Option.map_eq_some_iff.1 h
      obtain ⟨rfl, rfl⟩ := Prod.mk.inj heq
      rw [ih hsplit, List.cons_append]

/-- The text between `${` and `}` names a variable: what stands behind `containerEnv:` or `localEnv:`, up to the
next `:`. -/
def refName (inner : Text) : Option Text :=
  ((Text.stripPrefix "containerEnv:".toList inner).or (Text.stripPrefix "localEnv:".toList inner)).map
    fun name => name.takeWhile (· ≠ ':')

/-- What a reference becomes; an unknown name and a refused one become nothing. -/
def refValue (inner : Text) (base : EnvMap Text) : Text :=
  match refName inner with
  | some name => if envRefAllowed name then base[name]?.getD [] else []
  | none => openRef ++ inner ++ ['}']

def expandEnvRefs (value : Text) (base : EnvMap Text) : Text :=
  match _hopen : splitRef value with
  | none => value
  | some (before, after) => match _hclose : Text.splitOnce '}' after with
    -- without a closing brace the rest is kept as it stands
    | none => before ++ (openRef ++ after)
    | some (inner, rest) => before ++ refValue inner base ++ expandEnvRefs rest base
termination_by value.length
decreasing_by
  obtain ⟨rfl, -⟩ := Text.splitOnce_eq_some.1 _hclose
  rw [splitRef_eq_some _hopen]
  simp only [List.length_append, List.length_cons]
  omega

def expandRemoteEnv (remoteEnv base : EnvMap Text) : EnvMap Text := remoteEnv.map fun _ value => expandEnvRefs value base

/-- The maps have the same entries under all names but the `P`s. -/
def AgreeOff (P : Text → Prop) (base base' : EnvMap Text) : Prop := ∀ name, ¬ P name → base[name]? = base'[name]?

section
variable {base base' : EnvMap Text}

theorem refValue_congr (h : AgreeOff PlatformName base base') (inner : Text) :
    refValue inner base = refValue inner base' := by
  unfold refValue
  cases refName inner with
  | none => rfl
  | some name =>
    dsimp only
    by_cases hname : envRefAllowed name = true
    · rw [if_pos hname, if_pos hname, h name (envRefAllowed_iff.1 hname)]
    · rw [if_neg hname, if_neg hname]

/-- References read only the names the filter lets through, whatever the text around them. -/
theorem expandEnvRefs_congr (h : AgreeOff PlatformName base base') (value : Text) :
    expandEnvRefs value base = expandEnvRefs value base' := by
  fun_induction expandEnvRefs value base with
  | case1 value hopen => rw [expandEnvRefs.eq_def, hopen]
  | case2 value before after hopen hclose => rw [expandEnvRefs.eq_def, hopen]; dsimp only; rw [hclose]
  | case3 value before after hopen inner rest hclose ih =>
    rw [expandEnvRefs.eq_def value base', hopen]
    dsimp only
    rw [hclose, ih, refValue_congr h]

theorem expandRemoteEnv_congr (h : AgreeOff PlatformName base base') (remoteEnv : EnvMap Text) :
    expandRemoteEnv remoteEnv base = expandRemoteEnv remoteEnv base' := by
  have hfun : (fun (_ : Text) value => expandEnvRefs value base) = fun _ value => expandEnvRefs value base' :=
    funext fun _ => funext fun value => expandEnvRefs_congr h value
  unfold expandRemoteEnv
  rw [hfun]

end

/-! ## The environment of a child -/

/-- What a child's environment shows of the supervisor: paths as text, and the name of the user it runs as. -/
structure ChildEnvConfig where
  localApiListen : Text
  controlSecretFile : Text
  home : Text
  runtimeUserName : Text

def ChildEnvConfig.supervisorUrl (config : ChildEnvConfig) : Text := "http://".toList ++ config.localApiListen

def supervisorUrlVar : Text := "ZS_SUPERVISOR_URL".toList

def controlSecretFileVar : Text := "ZS_CONTROL_SECRET_FILE".toList

/-- What a child gets when the environment lacks it. -/
def childDefaults (config : ChildEnvConfig) : List (Text × Text) :=
  [("SHELL".toList, "/bin/bash".toList), ("USER".toList, config.runtimeUserName), ("HOME".toList, config.home),
   ("PATH".toList, ("/vercel/.local/bin:/vercel/.global/pnpm/bin:/vercel/.global/npm/bin:/usr/local/sbin:" ++
     "/usr/local/bin:/usr/sbin:/usr/bin:/sbin:/bin").toList), ("LANG".toList, "C.UTF-8".toList)]

section
variable {α : Type}

/-- A map of the entries; the last one of a name stays. -/
def collectEnv (entries : List (Text × α)) : EnvMap α := Maps.writeAll (fun e => some e.1) Prod.snd entries ∅

def insertAllowed (literals env : EnvMap α) : EnvMap α :=
  Maps.writeAll (Maps.keyIf manifestEnvKeyAllowed) Prod.snd literals.toList env

def orInsert (env : EnvMap α) (e : Text × α) : EnvMap α := env.insertIfNew e.1 e.2

/-- The values are of any type, so that they can carry where they come from; `own` makes one of the supervisor's. -/
def childEnvFrom (own : Text → α) (config : ChildEnvConfig) (base : List (Text × α))
    (manifestEnv remoteEnv : EnvMap α) : EnvMap α :=
  let env := insertAllowed remoteEnv (insertAllowed manifestEnv (collectEnv base))
  let env := strippedChildVars.foldl (fun env key => env.erase key) env
  let env := env.insert supervisorUrlVar (own config.supervisorUrl)
  let env := env.insert controlSecretFileVar (own config.controlSecretFile)
  ((childDefaults config).map fun e => (e.1, own e.2)).foldl orInsert env

end

/-- What `${containerEnv:…}` is looked up in: the process's environment and all literals of the manifest. -/
def expansionBase (vars : List (Text × Text)) (manifestEnv : EnvMap Text) : EnvMap Text :=
  Maps.writeAll (fun e => some e.1) Prod.snd manifestEnv.toList (collectEnv vars)

/-- The environment of `Boot::run`. -/
def bootChildEnv (config : ChildEnvConfig) (vars : List (Text × Text)) (manifestEnv remoteEnv : EnvMap Text) :
    EnvMap Text :=
  childEnvFrom id config vars manifestEnv (expandRemoteEnv remoteEnv (expansionBase vars manifestEnv))

/-! ## Where a variable comes from -/

/-- The literal a child gets under this name, if the filter lets the name through: `remoteEnv`'s before the
manifest's. -/
def envLiteral {α : Type} (manifestEnv remoteEnv : EnvMap α) (name : Text) : Option α :=
  if manifestEnvKeyAllowed name then remoteEnv[name]?.or manifestEnv[name]? else none

section
variable {α : Type} (own : Text → α) (config : ChildEnvConfig)

/-- What a child gets under a name without literals. -/
def inherited (base : List (Text × α)) (name : Text) : Option α :=
  (if controlSecretFileVar = name then some (own config.controlSecretFile)
    else if supervisorUrlVar = name then some (own config.supervisorUrl)
    else if name ∈ strippedChildVars then none
    else (collectEnv base)[name]?).or (((childDefaults config).lookup name).map own)

variable {own config} {base : List (Text × α)} {manifestEnv remoteEnv env : EnvMap α} {name : Text}

theorem getElem?_insertAllowed : (insertAllowed manifestEnv env)[name]? =
    if manifestEnvKeyAllowed name then manifestEnv[name]?.or env[name]? else env[name]? :=
  Maps.getElem?_writeAll_toList

theorem getElem?_eraseAll (names : List Text) :
    (names.foldl (fun env key => env.erase key) env)[name]? = if name ∈ names then none else env[name]? := by
  induction names generalizing env with
  | nil => rw [if_neg List.not_mem_nil]; rfl
  | cons key names ih =>
    rw [List.foldl_cons, ih, Maps.getElem?_erase]
    by_cases hmem : name ∈ names
    · rw [if_pos hmem, if_pos (List.mem_cons_of_mem _ hmem)]
    · by_cases hkey : key = name
      · rw [if_neg hmem, if_pos hkey, if_pos (List.mem_cons.2 (.inl hkey.symm))]
      · have hcons : name ∉ key :: names := fun h => (List.mem_cons.1 h).elim (fun h => hkey h.symm) hmem
        rw [if_neg hmem, if_neg hkey, if_neg hcons]

theorem getElem?_orInsertAll (entries : List (Text × Text)) :
    ((entries.map fun e => (e.1, own e.2)).foldl orInsert env)[name]? =
      env[name]?.or ((entries.lookup name).map own) := by
  induction entries generalizing env with
  | nil => exact Option.or_none.symm
  | cons e entries ih =>
    rw [List.map_cons, List.foldl_cons, ih, orInsert, Maps.getElem?_insertIfNew, Option.or_assoc, List.lookup_cons]
    by_cases hname : name = e.1
    · rw [if_pos hname.symm, hname, beq_self_eq_true]
      rfl
    · rw [if_neg (Ne.symm hname), beq_eq_false_iff_ne.2 hname, Option.none_or]

theorem not_allowed_of_own (h : name ∈ controlSecretFileVar :: supervisorUrlVar :: strippedChildVars) :
    manifestEnvKeyAllowed name = false := by
  revert name
  decide

/-- A literal decides its variable; every other variable is as it would be without literals. -/
theorem getElem?_childEnvFrom : (childEnvFrom own config base manifestEnv remoteEnv)[name]? =
    (envLiteral manifestEnv remoteEnv name).or (inherited own config base name) := by
  unfold childEnvFrom envLiteral inherited
  rw [getElem?_orInsertAll, Maps.getElem?_insert, Maps.getElem?_insert, getElem?_eraseAll, getElem?_insertAllowed,
    getElem?_insertAllowed]
  by_cases hname : manifestEnvKeyAllowed name = true
  · have hother : name ∉ controlSecretFileVar :: supervisorUrlVar :: strippedChildVars := by
      intro h
      rw [not_allowed_of_own h] at hname
      cases hname
    simp only [List.mem_cons, not_or] at hother
    obtain ⟨hfile, hurl, hstripped⟩ := hother
    simp only [if_neg (Ne.symm hfile), if_neg (Ne.symm hurl), if_neg hstripped, if_pos hname, Option.or_assoc]
  · simp only [if_neg hname, Option.none_or]

end

/-! ## Secrets stay out -/

theorem getElem?_expansionBase {vars : List (Text × Text)} {manifestEnv : EnvMap Text} {name : Text} :
    (expansionBase vars manifestEnv)[name]? = manifestEnv[name]?.or (collectEnv vars)[name]? := by
  have hall := Maps.getElem?_writeAll_toList (k := name) (t := collectEnv vars) (m := manifestEnv) (p := fun _ => true)
  exact hall

/-- Neither the references of a `remoteEnv` nor the variables a child inherits show a secret of the supervisor's. -/
theorem secrets_stay_out (remoteEnv : EnvMap Text) :
    (∀ base base' : EnvMap Text, AgreeOff PlatformName base base' →
      expandRemoteEnv remoteEnv base = expandRemoteEnv remoteEnv base') ∧
    ∀ (config : ChildEnvConfig) (manifestEnv : EnvMap Text) (vars vars' : List (Text × Text)),
      AgreeOff (· ∈ strippedChildVars) (collectEnv vars) (collectEnv vars') →
        bootChildEnv config vars manifestEnv remoteEnv = bootChildEnv config vars' manifestEnv remoteEnv := by
  refine ⟨fun base base' h => expandRemoteEnv_congr h remoteEnv, fun config manifestEnv vars vars' h => ?_⟩
  have hbase : AgreeOff PlatformName (expansionBase vars manifestEnv) (expansionBase vars' manifestEnv) := by
    intro name hname
    rw [getElem?_expansionBase, getElem?_expansionBase, h name fun hs => hname (platformName_of_stripped hs)]
  refine ExtTreeMap.ext_getElem? fun name => ?_
  unfold bootChildEnv
  rw [getElem?_childEnvFrom, getElem?_childEnvFrom, expandRemoteEnv_congr hbase remoteEnv]
  congr 1
  unfold inherited
  by_cases hstripped : name ∈ strippedChildVars
  · rw [if_pos hstripped, if_pos hstripped]
  · rw [if_neg hstripped, if_neg hstripped, h name hstripped]

/-- A process environment that holds the sandbox's credential. -/
def credentialVars : List (Text × Text) := [("ZS_SANDBOX_TOKEN".toList, "zsb_abc".toList), ("HOME".toList, "/h".toList)]

theorem credentialVars_agree : AgreeOff (· ∈ strippedChildVars) (collectEnv credentialVars)
    (collectEnv [("HOME".toList, "/h".toList)]) := by
  intro name hname
  have htoken : "ZS_SANDBOX_TOKEN".toList ≠ name := by
    rintro rfl
    exact hname (by decide)
  simp only [collectEnv, credentialVars, Maps.writeAll, List.foldl_cons, List.foldl_nil, Maps.getElem?_insert, if_neg htoken]

def sampleChildEnvConfig : ChildEnvConfig :=
  ⟨"127.0.0.1:8450".toList, "/h/.zs/run/control.secret".toList, "/h".toList, "u".toList⟩

def credentialRemoteEnv : EnvMap Text := ExtTreeMap.ofList [("T".toList, "${containerEnv:ZS_SANDBOX_TOKEN}".toList)]

theorem secrets_stay_out_token :
    expandRemoteEnv credentialRemoteEnv (collectEnv credentialVars) =
      expandRemoteEnv credentialRemoteEnv (collectEnv [("HOME".toList, "/h".toList)]) ∧
    bootChildEnv sampleChildEnvConfig credentialVars ∅ credentialRemoteEnv =
      bootChildEnv sampleChildEnvConfig [("HOME".toList, "/h".toList)] ∅ credentialRemoteEnv :=
  ⟨(secrets_stay_out _).1 _ _ fun name hname => credentialVars_agree name fun hs => hname (platformName_of_stripped hs),
    (secrets_stay_out _).2 _ _ _ _ credentialVars_agree⟩

end Zedspaces.Supervisor
