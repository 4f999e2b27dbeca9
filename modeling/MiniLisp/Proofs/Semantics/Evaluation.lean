import MiniLisp.Proofs.Semantics.Simulation

/-!
# Evaluation in lockstep

Each part of the evaluator follows its computation, given that the evaluation of the forms inside
does.  By induction on the fuel, evaluation follows its computation as long as the fuel exceeds the
room, and so the machine never runs out of fuel before it runs out of room.
-/

namespace MiniLisp.Semantics

variable {setting : Setting} {room : Nat} {world : World} {scope : ScopeId} {chain : Chain}
variable {inner : Evaluation} {inner' : Interpretation}

/-- The evaluation of the forms inside follows their interpretation, in every known scope. -/
def InnerFollows (setting : Setting) (room : Nat) (inner : Evaluation) (inner' : Interpretation) :
    Prop :=
  ∀ world scope chain form, world scope = some chain →
    Follows setting room (Means setting) world (inner setting.engine scope form)
      (inner' chain form)

theorem forms_follow (inside : InnerFollows setting room inner inner')
    (known : world scope = some chain) (items : List Form) :
    Follows setting room (fun world => Value.LiftItems (Stands setting world)) world
      (items.mapM (inner setting.engine scope)) (items.mapM (inner' chain)) := by
  induction items generalizing world with
  | nil => exact .pure trivial
  | cons first rest ih =>
    simp only [List.mapM_cons]
    apply (inside world scope chain first known).bind
    intro world₁ value meaning grows means
    apply (ih (grows _ _ known)).bind
    intro world₂ values meanings grows' meant
    exact .pure ⟨Means.mono grows' means, meant⟩

theorem binding_follows (inside : InnerFollows setting room inner inner')
    (known : world scope = some chain) (binding : Form) :
    Follows setting room (PairMeans setting) world
      (do
        match Eval.binding? binding with
        | some (name, expression) => return (name, ← inner setting.engine scope expression)
        | none => Run.fail (.malformed .define))
      (evalBinding inner' chain binding) := by
  simp only [evalBinding]
  cases Eval.binding? binding with
  | none => exact .fail _
  | some pair =>
    apply (inside world scope chain pair.2 known).bind
    intro world₁ value meaning _ means
    exact .pure ⟨rfl, means⟩

theorem bindings_follow (inside : InnerFollows setting room inner inner')
    (known : world scope = some chain) (bindings : List Form) :
    Follows setting room (fun world => List.Forall₂ (PairMeans setting world)) world
      (Eval.evalBindings inner setting.engine scope bindings)
      (bindings.mapM (evalBinding inner' chain)) := by
  simp only [Eval.evalBindings]
  induction bindings generalizing world with
  | nil => exact .pure .nil
  | cons first rest ih =>
    simp only [List.mapM_cons]
    apply (binding_follows inside known first).bind
    intro world₁ pair meaning grows paired
    apply (ih (grows _ _ known)).bind
    intro world₂ pairs meanings grows' all
    exact .pure (.cons ⟨paired.1, Means.mono grows' paired.2⟩ all)

/-! ## Calls -/

theorem builtin_follows (operation : Builtin) {arguments : List Datum} {meanings : List Meaning}
    (means : Value.LiftItems (Stands setting world) arguments meanings) :
    Follows setting room (Means setting) world (Eval.callBuiltin operation arguments)
      (call inner' (.builtin operation) meanings) := by
  have agree := Builtin.apply_agree stands_keepsIdentity operation means
  simp only [Eval.callBuiltin, call]
  generalize operation.apply arguments = result, operation.apply meanings = result' at agree ⊢
  cases agree with
  | ok holds => exact .pure holds
  | error cause => exact .fail _

/-- Zipping names with values that have meanings pairs the names with these meanings. -/
theorem zip_pairMeans {arguments : List Datum} {meanings : List Meaning}
    (means : Value.LiftItems (Stands setting world) arguments meanings) (names : List String) :
    List.Forall₂ (PairMeans setting world) (names.zip arguments) (names.zip meanings) := by
  induction names generalizing arguments meanings with
  | nil => exact .nil
  | cons name names ih =>
    cases arguments <;> cases meanings
    case nil.nil => exact .nil
    case cons.cons => exact .cons ⟨rfl, means.1⟩ (ih means.2)
    all_goals exact means.elim

theorem closure_follows (inside : InnerFollows setting room inner inner') {identity identity' : Nat}
    {params : List String} {body : Form} (known : world scope = some chain)
    {arguments : List Datum} {meanings : List Meaning}
    (means : Value.LiftItems (Stands setting world) arguments meanings) :
    Follows setting room (Means setting) world
      (Eval.callClosure inner ⟨identity, params, body, some scope, some setting.engine⟩ arguments)
      (call inner' (.closure identity' params body chain) meanings) := by
  have lengths := Builtin.length_eq_of_liftItems means
  simp only [Eval.callClosure, call, lengths]
  split
  · have frameStands := FrameStands.nil.bindAll (zip_pairMeans means params)
    rw [List.append_nil] at frameStands
    apply Follows.newScope_bind known frameStands
    intro world' fresh opened
    exact inside world' fresh _ body opened
  · exact .fail _

theorem call_follows (inside : InnerFollows setting room inner inner') {procedure : Procedure}
    {function : Function} {arguments : List Datum} {meanings : List Meaning}
    (stands : Stands setting world procedure function)
    (means : Value.LiftItems (Stands setting world) arguments meanings) :
    Follows setting room (Means setting) world (Eval.call inner procedure arguments)
      (call inner' function meanings) := by
  cases stands with
  | builtin operation => exact builtin_follows operation means
  | closure known => exact closure_follows inside known means

theorem apply_follows (inside : InnerFollows setting room inner inner') {procedure : Procedure}
    {function : Function} {arguments : List Datum} {meanings : List Meaning}
    (stands : Stands setting world procedure function)
    (means : Value.LiftItems (Stands setting world) arguments meanings) :
    Follows setting room (Means setting) world
      (Eval.apply inner setting.engine procedure arguments) (call inner' function meanings) :=
  .record_bind _ (.bind_record _ (call_follows inside stands means))

/-! ## Special forms -/

/-- A new scope that nobody knows yet keeps the world realized. -/
theorem Realizes.newScope {supply : Nat} {machine : Machine}
    (realizes : Realizes setting world room supply machine) (added : Scope) :
    Realizes setting world room supply { machine with scopes := machine.scopes.push added } := by
  refine ⟨fun other chain known => ?_, realizes.closures, realizes.engine⟩
  have stands := realizes.scopes other chain known
  exact stands.mono (fun _ _ known => known) (getElem?_push_of_lt stands.lt_size added)

theorem getElem?_bindAll_of_ne {scopes : Scopes} {fresh other : ScopeId} (different : other ≠ fresh)
    (pairs : List (String × Datum)) : (scopes.bindAll fresh pairs)[other]? = scopes[other]? := by
  rw [Scopes.bindAll, Array.getElem?_modify, if_neg (Ne.symm different)]

/-- Once its names are bound, a scope that nobody knew may be known. -/
theorem Realizes.setAll {supply : Nat} {machine : Machine} {fresh : ScopeId} {name : String}
    {pairs : List (String × Datum)} {meanings : List (String × Meaning)}
    (realizes : Realizes setting world room supply machine) (unknown : world fresh = none)
    (present : machine.scopes[fresh]? = some ⟨name, some scope, []⟩) (older : scope < fresh)
    (known : world scope = some chain)
    (paired : List.Forall₂ (PairMeans setting world) pairs meanings) :
    Realizes setting (Function.update world fresh (some (meanings.reverse :: chain))) room supply
      { machine with scopes := machine.scopes.bindAll fresh pairs } := by
  have bound : (machine.scopes.bindAll fresh pairs)[fresh]? =
      some ⟨name, some scope, Bindings.bindAll [] pairs⟩ := by
    rw [Scopes.bindAll, Array.getElem?_modify, if_pos rfl, present]
    rfl
  have frameStands := FrameStands.nil.bindAll paired
  rw [List.append_nil] at frameStands
  refine realizes.extend unknown (fun other chain' known' => ?_) bound frameStands ⟨older, known⟩
  apply getElem?_bindAll_of_ne
  rintro rfl
  rw [unknown] at known'
  cases known'

theorem define_follows (inside : InnerFollows setting room inner inner')
    (known : world scope = some chain) (head : Form) (token : Option Token) (label : Option Nat)
    (bindings : List Form) (body : Form) :
    Follows setting room (Means setting) world
      (Eval.evalDefine inner setting.engine scope [head, .list token label bindings, body])
      (evalSpecial inner' chain .define [head, .list token label bindings, body]) := by
  intro machine supply realizes
  -- The new scope stays unknown while the expressions are evaluated, and is known with its final
  -- bindings when the body is.
  let added : Scope := ⟨SpecialForm.define.name, some scope, []⟩
  let opened : Machine := { machine with scopes := machine.scopes.push added }
  have created : Run.newScope SpecialForm.define.name (some scope) [] machine =
      (.ok machine.scopes.size, opened) := rfl
  have older := (realizes.scopes scope chain known).lt_size
  have newest : machine.scopes.size < opened.scopes.size := by simp [opened]
  have bound := bindings_follow inside known bindings opened supply (realizes.newScope added)
  simp only [Eval.evalDefine, evalSpecial]
  rw [Run.bind_apply_of_ok created, Run.bind_apply, Computation.bind_apply]
  generalize Eval.evalBindings inner setting.engine scope bindings opened = outcome at bound ⊢
  generalize (bindings.mapM (evalBinding inner' chain)) supply = denoted at bound ⊢
  cases bound with
  | fault fault final => exact .fault fault final
  | tooDeep final => exact .tooDeep final
  | @value pairs meanings world' supply' middle realizes' later paired =>
    have unknown : world' machine.scopes.size = none := by
      rw [later.known _ newest]
      exact realizes.unknown_size
    have present : middle.scopes[machine.scopes.size]? = some added := by
      rw [later.kept _ newest]
      exact Array.getElem?_push_size
    have known' : world' scope = some chain := by
      rw [later.known _ (Nat.lt_trans older newest)]
      exact known
    have closed := realizes'.setAll unknown present older known' paired
    refine (inside _ _ _ body (Function.update_self ..) _ _ closed).of_later ⟨?_, ?_⟩
    · intro other inside
      rw [getElem?_bindAll_of_ne (Nat.ne_of_lt inside), later.kept _ (Nat.lt_trans inside newest)]
      exact getElem?_push_of_lt inside added
    · intro other inside
      rw [Function.update_of_ne (Nat.ne_of_lt inside), later.known _ (Nat.lt_trans inside newest)]

theorem newClosure_follows (known : world scope = some chain) (names : List String) (body : Form) :
    Follows setting room (Means setting) world
      (Run.newClosure names body (some scope) (some setting.engine))
      (do return .function (.closure (← Computation.newIdentity) names body chain)) := by
  intro machine supply realizes
  have made := realizes.closures
  have stands : Stands setting world
      (.closure ⟨machine.closures, names, body, some scope, some setting.engine⟩)
      (.closure supply names body chain) := by
    rw [made]
    exact .closure known
  refine .value ⟨realizes.scopes, ?_, realizes.engine⟩ (.refl _ _) stands
  change machine.closures + 1 = setting.made + (supply + 1)
  omega

theorem special_follows (inside : InnerFollows setting room inner inner')
    (known : world scope = some chain) (special : SpecialForm) (items : List Form) :
    Follows setting room (Means setting) world
      (Eval.evalSpecial inner setting.engine scope special items)
      (evalSpecial inner' chain special items) := by
  apply Follows.record_bind
  cases special with
  | define =>
    fun_cases Eval.evalDefine inner setting.engine scope items with
    | case1 head token label bindings body =>
      exact define_follows inside known head token label bindings body
    | case2 items shape =>
      rw [evalSpecial_define_malformed shape]
      exact .fail _
  | lambda =>
    fun_cases Eval.evalLambda setting.engine scope items with
    | case1 head token label params body names named =>
      simp only [evalSpecial, named]
      exact newClosure_follows known names body
    | case2 head token label params body unnamed =>
      simp only [evalSpecial, unnamed]
      exact .fail _
    | case3 items shape =>
      rw [evalSpecial_lambda_malformed fun head token label params body same =>
        (shape head token label params body same).elim]
      exact .fail _
  | conditional =>
    fun_cases Eval.evalIf inner setting.engine scope items with
    | case1 head condition consequent alternative =>
      apply (inside _ _ _ condition known).bind
      intro world' value meaning grows means
      rw [means.truthy_eq]
      split
      · exact inside _ _ _ consequent (grows _ _ known)
      · exact inside _ _ _ alternative (grows _ _ known)
    | case2 items shape =>
      rw [evalSpecial_conditional_malformed shape]
      exact .fail _
  | quote =>
    fun_cases Eval.evalQuote inner setting.engine scope items with
    | case1 head expression => exact inside _ _ _ expression known
    | case2 items shape =>
      rw [evalSpecial_quote_malformed shape]
      exact .fail _

/-! ## Forms -/

theorem ordinary_follows (inside : InnerFollows setting room inner inner')
    (known : world scope = some chain) (items : List Form) :
    Follows setting room (Means setting) world
      (Eval.evalOrdinary inner setting.engine scope items) (evalOrdinary inner' chain items) := by
  apply (forms_follow inside known items).bind
  intro world' values meanings grows means
  cases values <;> cases meanings
  case nil.nil => exact .pure trivial
  case cons.cons first rest meaning meanings =>
    cases first <;> cases meaning
    case function.function => exact apply_follows inside means.1 means.2
    case nil.nil | int.int | text.text | bool.bool | list.list => exact .pure means
    all_goals exact means.1.elim
  all_goals exact means.elim

theorem list_follows (inside : InnerFollows setting room inner inner')
    (known : world scope = some chain) (items : List Form) :
    Follows setting room (Means setting) world (Eval.evalList inner setting.engine scope items)
      (evalList inner' chain items) := by
  simp only [Eval.evalList, evalList]
  cases Eval.special? items with
  | none => exact ordinary_follows inside known items
  | some special => exact special_follows inside known special items

theorem atom_follows (known : world scope = some chain) (value : Atom) :
    Follows setting room (Means setting) world (Eval.evalAtom scope value)
      (evalAtom chain value) := by
  cases value with
  | int value => exact .pure rfl
  | string text => exact .pure rfl
  | symbol name =>
    intro machine supply realizes
    have resolved : Option.Rel (Means setting world) (machine.scopes.resolve name scope)
        (chain.value? name) :=
      resolveWithin_means name realizes.scopes known (Nat.lt_succ_self scope)
    simp only [Eval.evalAtom, Run.resolve, evalAtom]
    rw [Run.bind_apply_of_ok (Run.get_apply machine)]
    generalize machine.scopes.resolve name scope = found, chain.value? name = meant at resolved ⊢
    cases resolved with
    | some means => exact .value realizes (.refl _ _) means
    | none => exact .fault _ machine

/-- Evaluation follows its computation as long as there is more fuel than room. -/
theorem eval_follows {fuel : Nat} (enough : room < fuel) :
    InnerFollows setting room (MiniLisp.eval fuel) (eval room) := by
  induction fuel generalizing room with
  | zero => cases enough
  | succ fuel ih =>
    intro world scope chain form known
    cases form with
    | absent => cases room <;> exact .pure trivial
    | atom token value =>
      cases room with
      | zero => exact .nested_zero
      | succ room => exact .nested_succ (atom_follows known value)
    | list token label items =>
      cases room with
      | zero => exact .nested_zero
      | succ room =>
        exact .nested_succ (list_follows (ih (Nat.lt_of_succ_lt_succ enough)) known items)

end MiniLisp.Semantics
