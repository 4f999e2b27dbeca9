import MiniLisp.Proofs.Access.Builtin
import MiniLisp.Proofs.Eval.Logic
import MiniLisp.Proofs.Eval.Termination
import MiniLisp.Text.Utf8

/-!
# Forms taken for what they are

Evaluation takes forms apart as the builtin functions take values apart: it asks for the kind of a
form, for the length of a list and for the type of a value before it takes anything out.  Written
out with every such step, the evaluator is still the same, so no program makes it take anything for
what it is not.
-/

namespace MiniLisp.Access

/-- The elements of a form. -/
def items : Form → Except Stop (List Form)
  | .list _ _ items => .ok items
  | _ => denied

/-- The integer of a form. -/
def literal : Form → Except Stop Int64
  | .atom _ (.int value) => .ok value
  | _ => denied

/-- The characters of a form: the text of a string or the name of a symbol. -/
def word : Form → Except Stop String
  | .atom _ (.string text) => .ok text
  | .atom _ (.symbol name) => .ok name
  | _ => denied

/-- Whether forms are as many as they should be, with one of a certain kind among them. -/
def shaped (forms : List Form) (length index : Nat) (kind : FormKind) : Except Stop Bool :=
  if forms.length = length then return (← item forms index).kind? = some kind else .ok false

variable (inner : Evaluation) (engine : EngineId) (scope : ScopeId)

/-! ## Calls -/

/-- The parameters of a closure with their arguments. -/
def pairs : List String → List Datum → Except Stop (List (String × Datum))
  | [], _ => .ok []
  | param :: params, argument :: arguments => return (param, argument) :: (← pairs params arguments)
  | _ :: _, [] => denied

/-- Calls a closure. -/
def callClosure (closure : Closure) (arguments : List Datum) : Run Datum := do
  if arguments.length = closure.params.length then
    let bindings := Bindings.bindAll [] (← pairs closure.params arguments)
    let scope ← Run.newScope Procedure.closureName closure.scope bindings
    let engine ← Eval.engineOf closure
    inner engine scope closure.body
  else
    Run.fail (.application Procedure.closureName
      (.wrongArity (.exactly closure.params.length) arguments.length))

/-- Calls a function.  Those of the host are not taken apart. -/
def call (procedure : Procedure) (arguments : List Datum) : Run Datum :=
  match procedure with
  | .builtin builtin => Run.blame builtin.name (liftM (apply builtin arguments))
  | .closure closure => callClosure inner closure arguments
  | .host index name => Eval.callHost inner arguments (index + 1) index name

/-- Calls a function from inside a program.  The arguments and the result are written out for the
trace. -/
def callTraced (procedure : Procedure) (arguments : List Datum) : Run Datum := do
  let _ ← renderItems arguments
  Run.record engine fun _ => .call procedure.name arguments
  let value ← call inner procedure arguments
  let _ ← render value
  Run.record engine fun _ => .result value
  return value

/-! ## Special forms -/

/-- Evaluates a binding of a `define`. -/
def binding (form : Form) : Run (String × Datum) := do
  if form.kind? = some .list then
    let pair ← items form
    if ← shaped pair 2 0 .symbol then
      let value ← inner engine scope (← item pair 1)
      return (← word (← item pair 0), value)
    else Run.fail (.malformed .define)
  else Run.fail (.malformed .define)

/-- `(define ((name expr) ...) body)` -/
def evalDefine (form : List Form) : Run Datum := do
  if ← shaped form 3 1 .list then
    let fresh ← Run.newScope SpecialForm.define.name scope []
    let pairs ← (← items (← item form 1)).mapM (binding inner engine scope)
    Run.setAll fresh pairs
    inner engine fresh (← item form 2)
  else Run.fail (.malformed .define)

/-- The name of a parameter. -/
def param (form : Form) : Except Stop String :=
  if form.kind? = some .symbol then word form else .error (.fault (.malformed .lambda))

/-- `(lambda (param ...) body)` -/
def evalLambda (form : List Form) : Run Datum := do
  if ← shaped form 3 1 .list then
    let forms ← items (← item form 1)
    let params ← liftM (forms.mapM param)
    Run.newClosure params (← item form 2) scope engine
  else Run.fail (.malformed .lambda)

/-- `(if cond consequent alternative)` -/
def evalIf (form : List Form) : Run Datum := do
  if form.length = 4 then
    if ← truthy (← inner engine scope (← item form 1)) then
      inner engine scope (← item form 2)
    else
      inner engine scope (← item form 3)
  else Run.fail (.malformed .conditional)

/-- `(quote expr)` -/
def evalQuote (form : List Form) : Run Datum := do
  if form.length = 2 then
    inner engine scope (← item form 1)
  else Run.fail (.malformed .quote)

/-- Evaluates a special form. -/
def evalSpecial (special : SpecialForm) (form : List Form) : Run Datum := do
  Run.record engine fun machine =>
    .form special scope ((machine.scopes[scope]?.map Scope.name).getD "")
  match special with
  | .define => evalDefine inner engine scope form
  | .lambda => evalLambda engine scope form
  | .conditional => evalIf inner engine scope form
  | .quote => evalQuote inner engine scope form

/-! ## Forms -/

/-- The special form that a list is, if its head is reserved. -/
def special? (form : List Form) : Except Stop (Option SpecialForm) :=
  if 0 < form.length then do
    let head ← item form 0
    if head.kind? = some .symbol then return SpecialForm.ofName? (← word head) else return none
  else return none

/-- Whether the first of some values can be called. -/
def callable (values : List Datum) : Except Stop Bool :=
  if 0 < values.length then return (← item values 0).type = .function else return false

/-- Evaluates a list. -/
def evalList (form : List Form) : Run Datum := do
  match ← special? form with
  | some special => evalSpecial inner engine scope special form
  | none =>
    let values ← form.mapM (inner engine scope)
    if ← callable values then
      callTraced inner engine (← function (← item values 0)) (← slice values 1)
    else return .list values

/-- Evaluates a form that is there, kind by kind. -/
def evalPresent (form : Form) : Run Datum := do
  if form.kind? = some .list then evalList inner engine scope (← items form)
  else if form.kind? = some .symbol then Run.resolve scope (← word form)
  else if form.kind? = some .int then return .int (← literal form)
  else if form.kind? = some .string then return .text (← word form)
  else denied

/-- Evaluates a form, given the evaluation of the forms inside. -/
def step : Evaluation := fun engine scope form =>
  if form.kind? = none then return .nil
  else Run.nested engine (evalPresent inner engine scope form)

/-- Evaluates a form with at most `fuel` evaluations inside one another. -/
def eval : (fuel : Nat) → Evaluation
  | 0, _, _, _ => throw .exhausted
  | fuel + 1, engine, scope, form => step (eval fuel) engine scope form

/-- Evaluates the single form of a program text. -/
def interpret (interpreter : Interpreter) (source : List Char) : Run Datum := do
  let form ← liftM (Form.parse source)
  let scope ← Run.newRoot
  let engine ← Run.newEngine interpreter.limit interpreter.log
  eval (← get).fuel engine scope form

/-! ## Nothing is denied -/

theorem pairs_eq {params : List String} {arguments : List Datum}
    (same : arguments.length = params.length) :
    pairs params arguments = .ok (params.zip arguments) := by
  induction params generalizing arguments with
  | nil => rfl
  | cons param params ih =>
    cases arguments with
    | nil => cases same
    | cons argument arguments =>
      rw [pairs, ih (Nat.succ.inj same)]
      rfl

theorem callClosure_eq (closure : Closure) (arguments : List Datum) :
    callClosure inner closure arguments = Eval.callClosure inner closure arguments := by
  by_cases same : arguments.length = closure.params.length
  · simp only [callClosure, Eval.callClosure, if_pos same, pairs_eq same]
    rfl
  · simp only [callClosure, Eval.callClosure, if_neg same]

theorem call_eq (procedure : Procedure) (arguments : List Datum) :
    call inner procedure arguments = Eval.call inner procedure arguments := by
  cases procedure with
  | builtin builtin =>
    change Run.blame builtin.name (liftM (apply builtin arguments)) =
      Eval.callBuiltin builtin arguments
    rw [apply_eq, Eval.callBuiltin]
    cases builtin.apply arguments <;> rfl
  | closure closure => exact callClosure_eq inner closure arguments
  | host index name => rfl

theorem bindings_eq (forms : List Form) :
    forms.mapM (binding inner engine scope) = Eval.evalBindings inner engine scope forms := by
  rw [Eval.evalBindings]
  apply congrArg (forms.mapM ·)
  funext form
  cases form with
  | absent => rfl
  | atom token value => cases value <;> rfl
  | list token label pair =>
    rcases pair with _ | ⟨name, _ | ⟨expression, _ | ⟨third, others⟩⟩⟩
    · rfl
    · rfl
    · cases name with
      | absent => rfl
      | atom token value => cases value <;> rfl
      | list token label inside => rfl
    · rfl

/-- The shape that `define` and `lambda` share. -/
theorem shaped_cases (form : List Form) :
    (∃ head token label inside body, form = [head, .list token label inside, body]) ∨
      shaped form 3 1 .list = .ok false ∧
        ∀ head token label inside body, form ≠ [head, .list token label inside, body] := by
  match form with
  | [head, .list token label inside, body] => exact .inl ⟨head, token, label, inside, body, rfl⟩
  | [_, .atom _ (.int _), _] | [_, .atom _ (.string _), _] | [_, .atom _ (.symbol _), _]
  | [_, .absent, _] | [] | [_] | [_, _] | _ :: _ :: _ :: _ :: _ => exact .inr ⟨rfl, nofun⟩

theorem evalDefine_eq (form : List Form) :
    evalDefine inner engine scope form = Eval.evalDefine inner engine scope form := by
  rcases shaped_cases form with ⟨head, token, label, bindings, body, rfl⟩ | ⟨unshaped, other⟩
  · rw [Eval.evalDefine, ← bindings_eq]
    rfl
  · rw [Eval.evalDefine_malformed other, evalDefine, unshaped]
    rfl

theorem mapM_param (forms : List Form) :
    forms.mapM param =
      match forms.mapM Form.symbolName? with
      | some names => .ok names
      | none => .error (.fault (.malformed .lambda)) := by
  induction forms with
  | nil => rfl
  | cons first rest ih =>
    rw [List.mapM_cons, List.mapM_cons, ih]
    match first with
    | .atom _ (.symbol name) => cases rest.mapM Form.symbolName? <;> rfl
    | .absent | .atom _ (.int _) | .atom _ (.string _) | .list _ _ _ => rfl

theorem evalLambda_eq (form : List Form) :
    evalLambda engine scope form = Eval.evalLambda engine scope form := by
  rcases shaped_cases form with ⟨head, token, label, params, body, rfl⟩ | ⟨unshaped, other⟩
  · change (do
      let params ← liftM (params.mapM param)
      Run.newClosure params body (some scope) (some engine)) = _
    rw [mapM_param, Eval.evalLambda]
    cases params.mapM Form.symbolName? <;> rfl
  · rw [Eval.evalLambda_malformed other, evalLambda, unshaped]
    rfl

theorem evalIf_eq (form : List Form) :
    evalIf inner engine scope form = Eval.evalIf inner engine scope form := by
  match form with
  | [_, condition, consequent, alternative] =>
    change (do
      if ← truthy (← inner engine scope condition) then inner engine scope consequent
      else inner engine scope alternative) = _
    simp only [truthy_eq]
    rfl
  | [] | [_] | [_, _] | [_, _, _] | _ :: _ :: _ :: _ :: _ :: _ => rfl

theorem evalQuote_eq (form : List Form) :
    evalQuote inner engine scope form = Eval.evalQuote inner engine scope form := by
  match form with
  | [] | [_] | [_, _] | _ :: _ :: _ :: _ => rfl

theorem evalSpecial_eq (special : SpecialForm) (form : List Form) :
    evalSpecial inner engine scope special form =
      Eval.evalSpecial inner engine scope special form := by
  cases special with
  | define => rw [evalSpecial, evalDefine_eq]; rfl
  | lambda => rw [evalSpecial, evalLambda_eq]; rfl
  | conditional => rw [evalSpecial, evalIf_eq]; rfl
  | quote => rw [evalSpecial, evalQuote_eq]; rfl

theorem special?_eq (form : List Form) : special? form = .ok (Eval.special? form) := by
  match form with
  | .atom _ (.symbol _) :: _ => rfl
  | [] | .absent :: _ | .atom _ (.int _) :: _ | .atom _ (.string _) :: _ | .list _ _ _ :: _ => rfl

theorem callTraced_eq (procedure : Procedure) (arguments : List Datum) :
    callTraced inner engine procedure arguments = Eval.apply inner engine procedure arguments := by
  simp only [callTraced, call_eq, renderItems_eq, render_eq]
  rfl

theorem evalList_eq (form : List Form) :
    evalList inner engine scope form = Eval.evalList inner engine scope form := by
  rw [evalList, special?_eq, Eval.evalList]
  cases Eval.special? form with
  | some special => exact evalSpecial_eq inner engine scope special form
  | none =>
    change (form.mapM (inner engine scope) >>= fun values => do
      if ← callable values then
        callTraced inner engine (← function (← item values 0)) (← slice values 1)
      else return .list values) = Eval.evalOrdinary inner engine scope form
    rw [Eval.evalOrdinary]
    apply congrArg (form.mapM (inner engine scope) >>= ·)
    funext values
    cases values with
    | nil => rfl
    | cons first arguments =>
      cases first with
      | function procedure => exact callTraced_eq inner engine procedure arguments
      | nil | int | text | bool | list => rfl

theorem step_eq : step inner = Eval.step inner := by
  funext engine scope form
  match form with
  | .list _ _ items =>
    change Run.nested engine (evalList inner engine scope items) = _
    rw [evalList_eq]
    rfl
  | .absent | .atom _ (.int _) | .atom _ (.string _) | .atom _ (.symbol _) => rfl

theorem eval_eq (fuel : Nat) : eval fuel = MiniLisp.eval fuel := by
  induction fuel with
  | zero => rfl
  | succ fuel ih =>
    change step (eval fuel) = Eval.step (MiniLisp.eval fuel)
    rw [ih, step_eq]

theorem interpret_eq (interpreter : Interpreter) (source : List Char) :
    interpret interpreter source = interpreter.interpret source := by
  simp only [interpret, eval_eq]
  rfl

/-- Whatever bytes a program is read from, nothing in it is ever taken for what it is not: it comes
to a value, whose text can be written, or to a fault. -/
theorem interpret_never_misused (interpreter : Interpreter) (bytes : List UInt8)
    (machine : Machine) :
    interpret interpreter (Text.decode bytes) machine =
        interpreter.interpret (Text.decode bytes) machine ∧
      ((∃ value, (interpret interpreter (Text.decode bytes) machine).1 = .ok value ∧
          render value = .ok value.render) ∨
        ∃ fault, (interpret interpreter (Text.decode bytes) machine).1 =
          .error (.fault fault)) := by
  rw [interpret_eq]
  refine ⟨rfl, ?_⟩
  rcases interpreter.interpret_settled machine (Text.decode bytes) with
    ⟨value, came⟩ | ⟨fault, came⟩
  · exact .inl ⟨value, came, render_eq value⟩
  · exact .inr ⟨fault, came⟩

end MiniLisp.Access
