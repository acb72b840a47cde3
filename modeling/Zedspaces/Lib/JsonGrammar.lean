/-
The value grammar of JSON over tokens, with or without a comma after the last element of an array or object, and a
pushdown reader of it. The reader accepts what the grammar derives, with the value it derives (`read_iff`). A reader
without trailing commas accepts a list of tokens with those commas taken out as one with trailing commas accepts the
list, but for a comma that stands alone between its brackets (`read_erase`).
-/
import Mathlib.Data.List.Chain
import Mathlib.Tactic.Common

namespace Zedspaces.Lib.JsonGrammar

/-- Strings and scalars (numbers and names) carry what was read of them. -/
inductive Token (S : Type) where
  | openArray
  | closeArray
  | openObject
  | closeObject
  | colon
  | comma
  | string (s : S)
  | scalar (s : S)
  deriving DecidableEq, Repr

/-- The members are in the order of the text. -/
inductive Tree (S : Type) where
  | string (s : S)
  | scalar (s : S)
  | array (items : List (Tree S))
  | object (members : List (S × Tree S))

variable {S : Type}

/-! ## The grammar -/

mutual

inductive IsValue (trailing : Bool) : List (Token S) → Tree S → Prop
  | string (s : S) : IsValue trailing [.string s] (.string s)
  | scalar (s : S) : IsValue trailing [.scalar s] (.scalar s)
  | emptyArray : IsValue trailing [.openArray, .closeArray] (.array [])
  | array {ts body : List (Token S)} {v : Tree S} {items : List (Tree S)} : IsValue trailing ts v →
      IsItems trailing body items →
      IsValue trailing (.openArray :: (ts ++ (body ++ [.closeArray]))) (.array (v :: items))
  | emptyObject : IsValue trailing [.openObject, .closeObject] (.object [])
  | object {ts body : List (Token S)} {k : S} {v : Tree S} {members : List (S × Tree S)} : IsValue trailing ts v →
      IsMembers trailing body members →
      IsValue trailing (.openObject :: .string k :: .colon :: (ts ++ (body ++ [.closeObject])))
        (.object ((k, v) :: members))

/-- What stands between an item and the end of its array. -/
inductive IsItems (trailing : Bool) : List (Token S) → List (Tree S) → Prop
  | nil : IsItems trailing [] []
  | trailing : trailing = true → IsItems trailing [.comma] []
  | cons {ts body : List (Token S)} {v : Tree S} {items : List (Tree S)} : IsValue trailing ts v →
      IsItems trailing body items → IsItems trailing (.comma :: (ts ++ body)) (v :: items)

/-- What stands between a member and the end of its object. -/
inductive IsMembers (trailing : Bool) : List (Token S) → List (S × Tree S) → Prop
  | nil : IsMembers trailing [] []
  | trailing : trailing = true → IsMembers trailing [.comma] []
  | cons {ts body : List (Token S)} {k : S} {v : Tree S} {members : List (S × Tree S)} : IsValue trailing ts v →
      IsMembers trailing body members →
      IsMembers trailing (.comma :: .string k :: .colon :: (ts ++ body)) ((k, v) :: members)

end

/-! ## The reader -/

/-- What a value is read into. -/
inductive Frame (S : Type) where
  | array (items : List (Tree S))
  | object (members : List (S × Tree S)) (key : S)

/-- `item` and `key` may find the end of the array or object instead, after a comma only where one may trail. -/
inductive State (S : Type) where
  | value (stack : List (Frame S))
  | item (items : List (Tree S)) (comma : Bool) (stack : List (Frame S))
  | items (items : List (Tree S)) (stack : List (Frame S))
  | key (members : List (S × Tree S)) (comma : Bool) (stack : List (Frame S))
  | colon (members : List (S × Tree S)) (key : S) (stack : List (Frame S))
  | members (members : List (S × Tree S)) (stack : List (Frame S))
  | done (v : Tree S)

def complete (v : Tree S) : List (Frame S) → State S
  | [] => .done v
  | .array items :: stack => .items (items ++ [v]) stack
  | .object members key :: stack => .members (members ++ [(key, v)]) stack

/-- The first token of a value. -/
def begin (stack : List (Frame S)) : Token S → Option (State S)
  | .string s => some (complete (.string s) stack)
  | .scalar s => some (complete (.scalar s) stack)
  | .openArray => some (.item [] false stack)
  | .openObject => some (.key [] false stack)
  | .closeArray | .closeObject | .colon | .comma => none

def step (trailing : Bool) : State S → Token S → Option (State S)
  | .value stack, t => begin stack t
  | .item items comma stack, .closeArray =>
    if comma = true → trailing = true then some (complete (.array items) stack) else none
  | .item items _ stack, t => begin (.array items :: stack) t
  | .items items stack, .comma => some (.item items true stack)
  | .items items stack, .closeArray => some (complete (.array items) stack)
  | .items _ _, _ => none
  | .key members comma stack, .closeObject =>
    if comma = true → trailing = true then some (complete (.object members) stack) else none
  | .key members _ stack, .string key => some (.colon members key stack)
  | .key _ _ _, _ => none
  | .colon members key stack, .colon => some (.value (.object members key :: stack))
  | .colon _ _ _, _ => none
  | .members members stack, .comma => some (.key members true stack)
  | .members members stack, .closeObject => some (complete (.object members) stack)
  | .members _ _, _ => none
  | .done _, _ => none

def run (trailing : Bool) : State S → List (Token S) → Option (Tree S)
  | .done v, [] => some v
  | _, [] => none
  | σ, t :: ts => (step trailing σ t).bind fun σ' => run trailing σ' ts

/-- The value that the tokens are. -/
def read (trailing : Bool) (ts : List (Token S)) : Option (Tree S) := run trailing (.value []) ts

/-! ## What it accepts -/

section
variable {trailing : Bool} {ts : List (Token S)} {v w : Tree S} {stack : List (Frame S)}

theorem run_cons {σ σ' : State S} {t : Token S} (h : step trailing σ t = some σ') :
    run trailing σ (t :: ts) = run trailing σ' ts := by
  rw [run, h]
  rfl

/-- The tokens that close the stack, with a value in hand. -/
def Closes (trailing : Bool) : List (Frame S) → Tree S → List (Token S) → Tree S → Prop
  | [], v, ts, w => ts = [] ∧ v = w
  | .array items :: stack, v, ts, w => ∃ body rest more, ts = body ++ .closeArray :: rest ∧
    IsItems trailing body more ∧ Closes trailing stack (.array (items ++ v :: more)) rest w
  | .object members key :: stack, v, ts, w => ∃ body rest more, ts = body ++ .closeObject :: rest ∧
    IsMembers trailing body more ∧ Closes trailing stack (.object (members ++ (key, v) :: more)) rest w

/-- A value, and what closes the stack. -/
def Begins (trailing : Bool) (stack : List (Frame S)) (ts : List (Token S)) (w : Tree S) : Prop :=
  ∃ value rest v, ts = value ++ rest ∧ IsValue trailing value v ∧ Closes trailing stack v rest w

/-- What a state still demands of the tokens. -/
def Demands (trailing : Bool) : State S → List (Token S) → Tree S → Prop
  | .value stack, ts, w => Begins trailing stack ts w
  | .item items comma stack, ts, w => Begins trailing (.array items :: stack) ts w ∨
    ∃ rest, ts = .closeArray :: rest ∧ (comma = true → trailing = true) ∧ Closes trailing stack (.array items) rest w
  | .items items stack, ts, w => ∃ body rest more, ts = body ++ .closeArray :: rest ∧ IsItems trailing body more ∧
    Closes trailing stack (.array (items ++ more)) rest w
  | .key members comma stack, ts, w => (∃ key rest, ts = .string key :: .colon :: rest ∧
      Begins trailing (.object members key :: stack) rest w) ∨
    ∃ rest, ts = .closeObject :: rest ∧ (comma = true → trailing = true) ∧
      Closes trailing stack (.object members) rest w
  | .colon members key stack, ts, w => ∃ rest, ts = .colon :: rest ∧
    Begins trailing (.object members key :: stack) rest w
  | .members members stack, ts, w => ∃ body rest more, ts = body ++ .closeObject :: rest ∧
    IsMembers trailing body more ∧ Closes trailing stack (.object (members ++ more)) rest w
  | .done v, ts, w => ts = [] ∧ v = w

theorem demands_complete : Demands trailing (complete v stack) ts w ↔ Closes trailing stack v ts w := by
  match stack with
  | [] => exact Iff.rfl
  | .array items :: stack => simp only [complete, Demands, Closes, List.append_assoc, List.singleton_append]
  | .object members key :: stack => simp only [complete, Demands, Closes, List.append_assoc, List.singleton_append]

/-- No value starts as its array ends. -/
theorem IsValue.run_item (h : IsValue trailing ts v) (items : List (Tree S)) (comma : Bool) (rest : List (Token S)) :
    run trailing (.item items comma stack) (ts ++ rest) =
      run trailing (.value (.array items :: stack)) (ts ++ rest) := by
  cases h <;> rfl

theorem step_closeArray (h : trailing = true) (items : List (Tree S)) (stack : List (Frame S)) :
    step trailing (.item items true stack) .closeArray = some (complete (.array items) stack) := if_pos fun _ => h

theorem step_closeObject (h : trailing = true) (members : List (S × Tree S)) (stack : List (Frame S)) :
    step trailing (.key members true stack) .closeObject = some (complete (.object members) stack) := if_pos fun _ => h

mutual

theorem IsValue.reads {ts : List (Token S)} {v : Tree S} (h : IsValue trailing ts v) (stack : List (Frame S))
    (rest : List (Token S)) : run trailing (.value stack) (ts ++ rest) = run trailing (complete v stack) rest := by
  cases h with
  | string s => rfl
  | scalar s => rfl
  | emptyArray => rfl
  | emptyObject => rfl
  | @array ts body v items hvalue hitems =>
    calc run trailing (.value stack) (.openArray :: (ts ++ (body ++ [.closeArray])) ++ rest)
        = run trailing (.item [] false stack) (ts ++ (body ++ .closeArray :: rest)) := by
          rw [List.cons_append, run_cons rfl]
          simp only [List.append_assoc, List.singleton_append]
      _ = run trailing (.items [v] stack) (body ++ .closeArray :: rest) := by
          rw [hvalue.run_item, IsValue.reads hvalue]
          rfl
      _ = run trailing (complete (.array (v :: items)) stack) rest := IsItems.reads hitems [v] stack rest
  | @object ts body key v members hvalue hmembers =>
    calc run trailing (.value stack) (.openObject :: .string key :: .colon :: (ts ++ (body ++ [.closeObject])) ++ rest)
        = run trailing (.value (.object [] key :: stack)) (ts ++ (body ++ .closeObject :: rest)) := by
          rw [List.cons_append, run_cons rfl, List.cons_append, run_cons rfl, List.cons_append, run_cons rfl]
          simp only [List.append_assoc, List.singleton_append]
      _ = run trailing (.members [(key, v)] stack) (body ++ .closeObject :: rest) := by
          rw [IsValue.reads hvalue]
          rfl
      _ = run trailing (complete (.object ((key, v) :: members)) stack) rest :=
          IsMembers.reads hmembers [(key, v)] stack rest

theorem IsItems.reads {body : List (Token S)} {more : List (Tree S)} (h : IsItems trailing body more)
    (items : List (Tree S)) (stack : List (Frame S)) (rest : List (Token S)) :
    run trailing (.items items stack) (body ++ .closeArray :: rest) =
    run trailing (complete (.array (items ++ more)) stack) rest := by
  cases h with
  | nil => rw [List.append_nil, List.nil_append, run_cons rfl]
  | trailing htrailing =>
    rw [List.append_nil, List.singleton_append, run_cons rfl, run_cons (step_closeArray htrailing _ _)]
  | @cons ts body v more hvalue hmore =>
    rw [List.cons_append, run_cons rfl, List.append_assoc, hvalue.run_item, IsValue.reads hvalue]
    refine (IsItems.reads hmore (items ++ [v]) stack rest).trans ?_
    rw [List.append_assoc, List.singleton_append]

theorem IsMembers.reads {body : List (Token S)} {more : List (S × Tree S)} (h : IsMembers trailing body more)
    (members : List (S × Tree S)) (stack : List (Frame S)) (rest : List (Token S)) :
    run trailing (.members members stack) (body ++ .closeObject :: rest) =
    run trailing (complete (.object (members ++ more)) stack) rest := by
  cases h with
  | nil => rw [List.append_nil, List.nil_append, run_cons rfl]
  | trailing htrailing =>
    rw [List.append_nil, List.singleton_append, run_cons rfl, run_cons (step_closeObject htrailing _ _)]
  | @cons ts body key v more hvalue hmore =>
    rw [List.cons_append, run_cons rfl, List.cons_append, run_cons rfl, List.cons_append, run_cons rfl,
      List.append_assoc, IsValue.reads hvalue]
    refine (IsMembers.reads hmore (members ++ [(key, v)]) stack rest).trans ?_
    rw [List.append_assoc, List.singleton_append]

end

/-- A first token that is taken: the state after it demands the rest of the value. -/
theorem begins_first {σ : State S} {t : Token S} (hbegin : begin stack t = some σ) (h : Demands trailing σ ts w) :
    Begins trailing stack (t :: ts) w := by
  cases t with
  | string s =>
    cases hbegin
    exact ⟨[.string s], ts, .string s, rfl, .string s, demands_complete.1 h⟩
  | scalar s =>
    cases hbegin
    exact ⟨[.scalar s], ts, .scalar s, rfl, .scalar s, demands_complete.1 h⟩
  | openArray =>
    cases hbegin
    rcases h with ⟨value, _, v, rfl, hvalue, body, rest, more, rfl, hitems, hcloses⟩ | ⟨rest, rfl, -, hcloses⟩
    · exact ⟨.openArray :: (value ++ (body ++ [.closeArray])), rest, .array (v :: more), by simp, .array hvalue hitems,
        hcloses⟩
    · exact ⟨[.openArray, .closeArray], rest, .array [], rfl, .emptyArray, hcloses⟩
  | openObject =>
    cases hbegin
    rcases h with ⟨key, _, rfl, value, _, v, rfl, hvalue, body, rest, more, rfl, hmembers, hcloses⟩ |
      ⟨rest, rfl, -, hcloses⟩
    · exact ⟨.openObject :: .string key :: .colon :: (value ++ (body ++ [.closeObject])), rest,
        .object ((key, v) :: more), by simp, .object hvalue hmembers, hcloses⟩
    · exact ⟨[.openObject, .closeObject], rest, .object [], rfl, .emptyObject, hcloses⟩
  | closeArray => cases hbegin
  | closeObject => cases hbegin
  | colon => cases hbegin
  | comma => cases hbegin

/-- The item after a comma, and what follows it, are what may stand after an item. -/
theorem begins_item {items : List (Tree S)} (h : Demands trailing (.item items true stack) ts w) :
    Demands trailing (.items items stack) (.comma :: ts) w := by
  rcases h with ⟨value, _, v, rfl, hvalue, body, rest, more, rfl, hitems, hcloses⟩ | ⟨rest, rfl, htrailing, hcloses⟩
  · exact ⟨.comma :: (value ++ body), rest, v :: more, by simp, .cons hvalue hitems, hcloses⟩
  · exact ⟨[.comma], rest, [], rfl, .trailing (htrailing rfl), by rwa [List.append_nil]⟩

theorem begins_member {members : List (S × Tree S)} (h : Demands trailing (.key members true stack) ts w) :
    Demands trailing (.members members stack) (.comma :: ts) w := by
  rcases h with ⟨key, _, rfl, value, _, v, rfl, hvalue, body, rest, more, rfl, hmembers, hcloses⟩ |
    ⟨rest, rfl, htrailing, hcloses⟩
  · exact ⟨.comma :: .string key :: .colon :: (value ++ body), rest, (key, v) :: more, by simp,
      .cons hvalue hmembers, hcloses⟩
  · exact ⟨[.comma], rest, [], rfl, .trailing (htrailing rfl), by rwa [List.append_nil]⟩

/-- A token that is taken: what the state after it demands of the rest, the state before demanded of all. -/
theorem demands_step {σ σ' : State S} {t : Token S} (hstep : step trailing σ t = some σ')
    (h : Demands trailing σ' ts w) : Demands trailing σ (t :: ts) w := by
  cases σ with
  | value stack => exact begins_first hstep h
  | item items comma stack =>
    cases t with
    | closeArray =>
      obtain ⟨hcomma, heq⟩ := Option.ite_none_right_eq_some.1 hstep
      cases heq
      exact .inr ⟨ts, rfl, hcomma, demands_complete.1 h⟩
    | _ => exact .inl (begins_first hstep h)
  | items items stack =>
    cases t with
    | comma =>
      cases hstep
      exact begins_item h
    | closeArray =>
      cases hstep
      exact ⟨[], ts, [], rfl, .nil, by rw [List.append_nil]; exact demands_complete.1 h⟩
    | _ => cases hstep
  | key members comma stack =>
    cases t with
    | closeObject =>
      obtain ⟨hcomma, heq⟩ := Option.ite_none_right_eq_some.1 hstep
      cases heq
      exact .inr ⟨ts, rfl, hcomma, demands_complete.1 h⟩
    | string key =>
      cases hstep
      obtain ⟨rest, rfl, hbegins⟩ := h
      exact .inl ⟨key, rest, rfl, hbegins⟩
    | _ => cases hstep
  | colon members key stack =>
    cases t with
    | colon =>
      cases hstep
      exact ⟨ts, rfl, h⟩
    | _ => cases hstep
  | members members stack =>
    cases t with
    | comma =>
      cases hstep
      exact begins_member h
    | closeObject =>
      cases hstep
      exact ⟨[], ts, [], rfl, .nil, by rw [List.append_nil]; exact demands_complete.1 h⟩
    | _ => cases hstep
  | done v => cases hstep

/-- What is read was demanded. -/
theorem demands_of_run {σ : State S} (h : run trailing σ ts = some w) : Demands trailing σ ts w := by
  induction ts generalizing σ with
  | nil =>
    cases σ with
    | done v =>
      cases h
      exact ⟨rfl, rfl⟩
    | _ => cases h
  | cons t ts ih =>
    rw [run] at h
    obtain ⟨σ', hstep, hrun⟩ := Option.bind_eq_some_iff.1 h
    exact demands_step hstep (ih hrun)

/-- The reader accepts what the grammar derives, and nothing else. -/
theorem read_iff : read trailing ts = some v ↔ IsValue trailing ts v := by
  constructor
  · intro h
    obtain ⟨value, rest, v', rfl, hvalue, rfl, rfl⟩ := demands_of_run h
    rwa [List.append_nil]
  · intro h
    have hrun := h.reads [] []
    rwa [List.append_nil] at hrun

end

/-! ## Trailing commas -/

def Token.isComma : Token S → Bool
  | .comma => true
  | _ => false

def Token.closes : Token S → Bool
  | .closeArray | .closeObject => true
  | _ => false

def Token.isScalar : Token S → Bool
  | .scalar _ => true
  | _ => false

def closesNext (ts : List (Token S)) : Bool := ts.head?.any Token.closes

/-- The commas before the end of an array or object are taken out. -/
def erase : List (Token S) → List (Token S)
  | [] => []
  | t :: ts => if t.isComma && closesNext ts then erase ts else t :: erase ts

/-- The commas that stand alone between their brackets are taken out. -/
def dropLone : List (Token S) → List (Token S)
  | [] => []
  | .openArray :: .comma :: .closeArray :: ts => .openArray :: .closeArray :: dropLone ts
  | .openObject :: .comma :: .closeObject :: ts => .openObject :: .closeObject :: dropLone ts
  | t :: ts => t :: dropLone ts

theorem dropLone_ne_nil {ts : List (Token S)} (h : ts ≠ []) : dropLone ts ≠ [] := by
  fun_cases dropLone ts with
  | case1 => exact absurd rfl h
  | _ => exact List.cons_ne_nil _ _

section
variable {trailing : Bool} {ts : List (Token S)} {t u : Token S} {v w : Tree S} {stack : List (Frame S)}
  {σ σ' : State S}

/-- After a value comes a comma or an end. -/
theorem step_complete (h : step trailing (complete v stack) t = some σ') : t.isComma = true ∨ t.closes = true := by
  match stack with
  | [] => cases h
  | .array items :: stack =>
    cases t with
    | comma => exact .inl rfl
    | closeArray => exact .inr rfl
    | _ => cases h
  | .object members key :: stack =>
    cases t with
    | comma => exact .inl rfl
    | closeObject => exact .inr rfl
    | _ => cases h

theorem begin_scalar {s : S} (h : begin stack (.scalar s) = some σ') : ∃ stack, σ' = complete (.scalar s) stack :=
  ⟨stack, (Option.some.inj h).symm⟩

/-- A scalar is a value. -/
theorem step_scalar {s : S} (h : step trailing σ (.scalar s) = some σ') : ∃ stack, σ' = complete (.scalar s) stack := by
  cases σ with
  | value stack => exact begin_scalar h
  | item items comma stack => exact begin_scalar h
  | _ => cases h

/-- No two scalars stand side by side in what is read. -/
theorem not_scalar_scalar (h : run trailing σ ts = some w) :
    ts.IsChain fun t u => ¬ (t.isScalar = true ∧ u.isScalar = true) := by
  induction ts generalizing σ with
  | nil => exact .nil
  | cons t ts ih =>
    rw [run] at h
    obtain ⟨σ', hstep, hrun⟩ := Option.bind_eq_some_iff.1 h
    refine List.isChain_cons.2 ⟨fun u hu => ?_, ih hrun⟩
    rintro ⟨ht, hscalar⟩
    obtain ⟨ts', rfl⟩ := List.head?_eq_some_iff.1 hu
    match t, ht with
    | .scalar s, _ =>
      obtain ⟨stack, rfl⟩ := step_scalar hstep
      rw [run] at hrun
      obtain ⟨σ'', hnext, -⟩ := Option.bind_eq_some_iff.1 hrun
      match u, hscalar with
      | .scalar s', _ => exact (step_complete hnext).elim Bool.noConfusion Bool.noConfusion

/-- Without trailing commas none stands before an end. -/
theorem not_comma_closes (h : run false σ ts = some w) :
    ts.IsChain fun t u => ¬ (t.isComma = true ∧ u.closes = true) := by
  induction ts generalizing σ with
  | nil => exact .nil
  | cons t ts ih =>
    rw [run] at h
    obtain ⟨σ', hstep, hrun⟩ := Option.bind_eq_some_iff.1 h
    refine List.isChain_cons.2 ⟨fun u hu => ?_, ih hrun⟩
    rintro ⟨ht, hcloses⟩
    obtain ⟨ts', rfl⟩ := List.head?_eq_some_iff.1 hu
    rw [run] at hrun
    obtain ⟨σ'', hnext, -⟩ := Option.bind_eq_some_iff.1 hrun
    match t, ht with
    | .comma, _ =>
      cases σ with
      | items items stack =>
        cases hstep
        match u, hcloses with
        | .closeArray, _ => cases hnext
        | .closeObject, _ => cases hnext
      | members members stack =>
        cases hstep
        match u, hcloses with
        | .closeArray, _ => cases hnext
        | .closeObject, _ => cases hnext
      | _ => cases hstep

theorem step_openArray (h : step trailing σ .openArray = some σ') : ∃ stack, σ' = .item [] false stack := by
  cases σ with
  | value stack => exact ⟨_, (Option.some.inj h).symm⟩
  | item items comma stack => exact ⟨_, (Option.some.inj h).symm⟩
  | _ => cases h

theorem step_openObject (h : step trailing σ .openObject = some σ') : ∃ stack, σ' = .key [] false stack := by
  cases σ with
  | value stack => exact ⟨_, (Option.some.inj h).symm⟩
  | item items comma stack => exact ⟨_, (Option.some.inj h).symm⟩
  | _ => cases h

/-- What is read has no comma alone between its brackets. -/
theorem dropLone_of_run (h : run trailing σ ts = some w) : dropLone ts = ts := by
  induction ts using dropLone.induct generalizing σ with
  | case1 => rfl
  | case2 ts ih =>
    rw [run] at h
    obtain ⟨σ', hstep, hrun⟩ := Option.bind_eq_some_iff.1 h
    obtain ⟨stack, rfl⟩ := step_openArray hstep
    cases hrun
  | case3 ts ih =>
    rw [run] at h
    obtain ⟨σ', hstep, hrun⟩ := Option.bind_eq_some_iff.1 h
    obtain ⟨stack, rfl⟩ := step_openObject hstep
    cases hrun
  | case4 t ts harray hobject ih =>
    rw [run] at h
    obtain ⟨σ', hstep, hrun⟩ := Option.bind_eq_some_iff.1 h
    rw [dropLone, ih hrun]
    · exact harray
    · exact hobject

/-- The states that `erase` leads to: an end does not come right after a comma, nor a lone comma after an opening. -/
def Fits : State S → List (Token S) → Prop
  | .item _ true _, ts | .key _ true _, ts => closesNext ts = false
  | .item _ false _, ts => ∀ rest, ts ≠ .comma :: .closeArray :: rest
  | .key _ false _, ts => ∀ rest, ts ≠ .comma :: .closeObject :: rest
  | _, _ => True

theorem fits_complete : Fits (complete v stack) ts := by
  match stack with
  | [] => trivial
  | .array _ :: _ => trivial
  | .object _ _ :: _ => trivial

/-- Where an end does not come right after a comma, trailing commas make no difference. -/
theorem step_fits (h : Fits σ (t :: ts)) : step false σ t = step true σ t := by
  cases σ with
  | item items comma stack =>
    cases comma with
    | false => cases t <;> simp [step]
    | true =>
      cases t with
      | closeArray => cases h
      | _ => rfl
  | key members comma stack =>
    cases comma with
    | false => cases t <;> simp [step]
    | true =>
      cases t with
      | closeObject => cases h
      | _ => rfl
  | _ => cases t <;> rfl

/-- A trailing comma and the end behind it take a state where the end alone does. -/
theorem step_trailing (h : Fits σ (.comma :: t :: ts)) (ht : t.closes = true) :
    ((step true σ .comma).bind fun σ' => step true σ' t) = step false σ t := by
  match t, ht with
  | .closeArray, _ =>
    cases σ with
    | item items comma stack =>
      cases comma with
      | false => exact absurd rfl (h ts)
      | true => rfl
    | _ => rfl
  | .closeObject, _ =>
    cases σ with
    | key members comma stack =>
      cases comma with
      | false => exact absurd rfl (h ts)
      | true => rfl
    | _ => rfl

/-- An end completes a value. -/
theorem step_closes (ht : t.closes = true) (h : step trailing σ t = some σ') : ∃ v stack, σ' = complete v stack := by
  match t, ht with
  | .closeArray, _ =>
    cases σ with
    | item items comma stack => exact ⟨_, _, (Option.some.inj (Option.ite_none_right_eq_some.1 h).2).symm⟩
    | items items stack => exact ⟨_, _, (Option.some.inj h).symm⟩
    | _ => cases h
  | .closeObject, _ =>
    cases σ with
    | key members comma stack => exact ⟨_, _, (Option.some.inj (Option.ite_none_right_eq_some.1 h).2).symm⟩
    | members members stack => exact ⟨_, _, (Option.some.inj h).symm⟩
    | _ => cases h

theorem step_item {items : List (Tree S)} {comma : Bool} (ht : t ≠ .closeArray) :
    step trailing (.item items comma stack) t = begin (.array items :: stack) t := by
  cases t with
  | closeArray => exact absurd rfl ht
  | _ => rfl

theorem fits_begin (h : begin stack t = some σ') (harray : ∀ rest, t = .openArray → ts ≠ .comma :: .closeArray :: rest)
    (hobject : ∀ rest, t = .openObject → ts ≠ .comma :: .closeObject :: rest) : Fits σ' ts := by
  cases t with
  | string s => exact Option.some.inj h ▸ fits_complete
  | scalar s => exact Option.some.inj h ▸ fits_complete
  | openArray => exact Option.some.inj h ▸ fun rest => harray rest rfl
  | openObject => exact Option.some.inj h ▸ fun rest => hobject rest rfl
  | _ => cases h

theorem fits_step (h : step trailing σ t = some σ') (hcomma : ¬ (t.isComma && closesNext ts) = true)
    (harray : ∀ rest, t = .openArray → ts ≠ .comma :: .closeArray :: rest)
    (hobject : ∀ rest, t = .openObject → ts ≠ .comma :: .closeObject :: rest) : Fits σ' ts := by
  by_cases hcloses : t.closes = true
  · obtain ⟨v, stack, rfl⟩ := step_closes hcloses h
    exact fits_complete
  · cases σ with
    | value stack => exact fits_begin h harray hobject
    | item items comma stack =>
      have ht : t ≠ .closeArray := by
        rintro rfl
        exact hcloses rfl
      rw [step_item ht] at h
      exact fits_begin h harray hobject
    | items items stack =>
      cases t with
      | comma => exact Option.some.inj h ▸ Bool.eq_false_iff.2 hcomma
      | closeArray => exact absurd rfl hcloses
      | _ => cases h
    | key members comma stack =>
      cases t with
      | closeObject => exact absurd rfl hcloses
      | string key =>
        cases h
        trivial
      | _ => cases h
    | colon members key stack =>
      cases t with
      | colon =>
        cases h
        trivial
      | _ => cases h
    | members members stack =>
      cases t with
      | comma => exact Option.some.inj h ▸ Bool.eq_false_iff.2 hcomma
      | closeObject => exact absurd rfl hcloses
      | _ => cases h
    | done v => cases h

/-- Two readers that agree on a token agree on all, if they do after it. -/
theorem run_congr {ts₁ ts₂ : List (Token S)} (hstep : step false σ t = step true σ t)
    (h : ∀ σ', step true σ t = some σ' → run false σ' ts₁ = run true σ' ts₂) :
    run false σ (t :: ts₁) = run true σ (t :: ts₂) := by
  rw [run, run, hstep]
  cases hσ : step true σ t with
  | none => rfl
  | some σ' => exact h σ' hσ

theorem erase_cons (h : ¬ (t.isComma && closesNext ts) = true) : erase (t :: ts) = t :: erase ts := if_neg h

theorem erase_comma (ht : t.closes = true) : erase (.comma :: t :: ts) = t :: erase ts := by
  have hnext : ((.comma : Token S).isComma && closesNext (t :: ts)) = true := ht
  rw [erase, if_pos hnext, erase_cons]
  match t, ht with
  | .closeArray, _ => exact Bool.noConfusion
  | .closeObject, _ => exact Bool.noConfusion

theorem dropLone_comma (ht : t.closes = true) : dropLone (.comma :: t :: ts) = .comma :: t :: dropLone ts := by
  match t, ht with
  | .closeArray, _ => rfl
  | .closeObject, _ => rfl

theorem run_erase (ts : List (Token S)) (hfits : Fits σ ts) : run false σ (erase ts) = run true σ (dropLone ts) := by
  induction hlen : ts.length using Nat.strongRecOn generalizing ts σ with
  | _ n ih =>
    have hrest : ∀ (rest : List (Token S)) (v : Tree S) (stack : List (Frame S)), rest.length < n →
        run false (complete v stack) (erase rest) = run true (complete v stack) (dropLone rest) :=
      fun rest v stack hlt => ih rest.length hlt rest fits_complete rfl
    match ts with
    | [] => cases σ <;> rfl
    | t :: ts =>
      rw [List.length_cons] at hlen
      by_cases hcomma : (t.isComma && closesNext ts) = true
      · -- the comma goes, the end behind it stays
        obtain ⟨ht, hnext⟩ := Bool.and_eq_true_iff.1 hcomma
        obtain ⟨u, hu, hcloses⟩ := (Option.any_eq_true _ _).1 hnext
        obtain ⟨ts, rfl⟩ := List.head?_eq_some_iff.1 hu
        match t, ht with
        | .comma, _ =>
          rw [List.length_cons] at hlen
          rw [erase_comma hcloses, dropLone_comma hcloses, run, run, ← step_trailing hfits hcloses]
          cases hσ : step true σ .comma with
          | none => rfl
          | some σ' =>
            rw [Option.bind_some, Option.bind_some, run]
            cases hσ' : step true σ' u with
            | none => rfl
            | some σ'' =>
              obtain ⟨v, stack, rfl⟩ := step_closes hcloses hσ'
              exact hrest ts v stack (by omega)
      · rw [erase_cons hcomma]
        by_cases harray : t = .openArray ∧ ∃ rest, ts = .comma :: .closeArray :: rest
        · obtain ⟨rfl, rest, rfl⟩ := harray
          simp only [List.length_cons] at hlen
          rw [erase_comma rfl]
          refine run_congr (step_fits hfits) fun σ' hσ' => ?_
          obtain ⟨stack, rfl⟩ := step_openArray hσ'
          exact hrest rest (.array []) stack (by omega)
        · by_cases hobject : t = .openObject ∧ ∃ rest, ts = .comma :: .closeObject :: rest
          · obtain ⟨rfl, rest, rfl⟩ := hobject
            simp only [List.length_cons] at hlen
            rw [erase_comma rfl]
            refine run_congr (step_fits hfits) fun σ' hσ' => ?_
            obtain ⟨stack, rfl⟩ := step_openObject hσ'
            exact hrest rest (.object []) stack (by omega)
          · have hnarray : ∀ rest, t = .openArray → ts ≠ .comma :: .closeArray :: rest :=
              fun rest ht hts => harray ⟨ht, rest, hts⟩
            have hnobject : ∀ rest, t = .openObject → ts ≠ .comma :: .closeObject :: rest :=
              fun rest ht hts => hobject ⟨ht, rest, hts⟩
            rw [dropLone]
            · refine run_congr (step_fits hfits) fun σ' hσ' => ?_
              exact ih ts.length (by omega) ts (fits_step hσ' hcomma hnarray hnobject) rfl
            · exact hnarray
            · exact hnobject

/-- The value of tokens without their trailing commas. -/
theorem read_erase (ts : List (Token S)) : read false (erase ts) = read true (dropLone ts) :=
  run_erase ts trivial

end

end Zedspaces.Lib.JsonGrammar
