import MiniLisp.Machine
import MiniLisp.Reader

/-!
# Evaluation

Lists are evaluated element by element from left to right; a list whose first value is a function is
a call of it, and any other list is the list of its values.  The four special forms decide for
themselves.

Every step is written against the evaluation of the forms inside, `inner`, and `eval` ties the knot
with a bound on the nesting.  The limit of the engine is met before that bound, except where host
closures without an engine call one another.
-/

namespace MiniLisp

/-- An evaluation of forms: in an engine, in a scope. -/
abbrev Evaluation := EngineId → ScopeId → Form → Run Datum

/-- The limit on nested evaluations that holds unless another one is set. -/
def defaultLimit : Nat := 10000

namespace Eval

/-- The engine in which a closure runs: a fresh one unless it has its own. -/
def engineOf (closure : Closure) : Run EngineId :=
  match closure.engine with
  | some engine => pure engine
  | none => Run.newEngine defaultLimit none

/-- Calls a closure: its parameters are bound by position in a new scope below the one it was made
in, and its body is evaluated there.  The scope is created with all bindings at once.  Nobody can
tell that from binding one parameter after the other, because nothing is evaluated in between. -/
def callClosure (inner : Evaluation) (closure : Closure) (arguments : List Datum) :
    Run Datum := do
  if arguments.length = closure.params.length then
    let bindings := Bindings.bindAll [] (closure.params.zip arguments)
    let scope ← Run.newScope Procedure.closureName closure.scope bindings
    let engine ← engineOf closure
    inner engine scope closure.body
  else
    Run.fail (.application Procedure.closureName
      (.wrongArity (.exactly closure.params.length) arguments.length))

/-- Calls a builtin function. -/
def callBuiltin (builtin : Builtin) (arguments : List Datum) : Run Datum :=
  match builtin.apply arguments with
  | .ok value => pure value
  | .error cause => Run.fail (.application builtin.name cause)

/-- Evaluates the text of the first argument, without the quotes at both ends, as a program of its
own. -/
def interpretText (inner : Evaluation) (arguments : List Datum) : Run Datum := do
  match arguments with
  | .text text :: _ =>
    let stripped := text.toList.dropWhile (· == '"')
    let source := (stripped.reverse.dropWhile (· == '"')).reverse
    let form ← liftM (Form.parse source)
    let scope ← Run.newRoot
    let engine ← Run.newEngine defaultLimit none
    inner engine scope form
  | _ => throw (.misuse .wrongAccess)

/-- Calls a function of the host, following at most `steps` functions that wrap one another. -/
def callHost (inner : Evaluation) (arguments : List Datum) :
    (steps : Nat) → (index : Nat) → (name : String) → Run Datum
  | 0, _, _ => throw .exhausted
  | steps + 1, index, name => do
    match (← get).hosts[index]? with
    | some (.wrap (.function (.builtin builtin))) => Run.blame name (callBuiltin builtin arguments)
    | some (.wrap (.function (.closure closure))) =>
      Run.blame name (callClosure inner closure arguments)
    | some (.wrap (.function (.host index wrapped))) =>
      Run.blame name (callHost inner arguments steps index wrapped)
    | some (.fail message) => Run.blame name (Run.fail (.external message))
    | some (.const value) => return value
    | some .interpret => Run.blame name (interpretText inner arguments)
    | _ => throw (.misuse .notCallable)

/-- Calls a function.  A function of the host can wrap only functions that were there before it. -/
def call (inner : Evaluation) (procedure : Procedure) (arguments : List Datum) : Run Datum :=
  match procedure with
  | .builtin builtin => callBuiltin builtin arguments
  | .closure closure => callClosure inner closure arguments
  | .host index name => callHost inner arguments (index + 1) index name

/-- Calls a function from inside a program, which a trace records. -/
def apply (inner : Evaluation) (engine : EngineId) (procedure : Procedure)
    (arguments : List Datum) : Run Datum := do
  Run.record engine fun _ => .call procedure.name arguments
  let value ← call inner procedure arguments
  Run.record engine fun _ => .result value
  return value

/-- The name and the expression of a binding in a `define`. -/
def binding? : Form → Option (String × Form)
  | .list _ _ [name, expression] => name.symbolName?.map (·, expression)
  | _ => none

/-- Evaluates the bindings of a `define` one after the other; each must have its shape when its turn
comes. -/
def evalBindings (inner : Evaluation) (engine : EngineId) (scope : ScopeId)
    (bindings : List Form) : Run (List (String × Datum)) :=
  bindings.mapM fun binding => do
    match binding? binding with
    | some (name, expression) => return (name, ← inner engine scope expression)
    | none => Run.fail (.malformed .define)

/-- `(define ((name expr) ...) body)`: the expressions are evaluated in the surrounding scope, so
that they do not see each other, and the body in one new scope that binds all the names.  The names
are bound together once all expressions have come to values.  Nobody can tell that from binding each
name behind its expression: until the body is evaluated no scope has the new one as its parent and
no closure is made in it, and if an expression fails the new scope is never used. -/
def evalDefine (inner : Evaluation) (engine : EngineId) (scope : ScopeId) :
    List Form → Run Datum
  | [_, .list _ _ bindings, body] => do
    let fresh ← Run.newScope SpecialForm.define.name scope []
    let pairs ← evalBindings inner engine scope bindings
    Run.setAll fresh pairs
    inner engine fresh body
  | _ => Run.fail (.malformed .define)

/-- `(lambda (param ...) body)`: a closure over the surrounding scope. -/
def evalLambda (engine : EngineId) (scope : ScopeId) : List Form → Run Datum
  | [_, .list _ _ params, body] =>
    match params.mapM Form.symbolName? with
    | some names => Run.newClosure names body scope engine
    | none => Run.fail (.malformed .lambda)
  | _ => Run.fail (.malformed .lambda)

/-- `(if cond consequent alternative)`: only the chosen branch is evaluated. -/
def evalIf (inner : Evaluation) (engine : EngineId) (scope : ScopeId) :
    List Form → Run Datum
  | [_, condition, consequent, alternative] => do
    if (← inner engine scope condition).truthy then
      inner engine scope consequent
    else
      inner engine scope alternative
  | _ => Run.fail (.malformed .conditional)

/-- `(quote expr)`: the expression is evaluated like any other. -/
def evalQuote (inner : Evaluation) (engine : EngineId) (scope : ScopeId) :
    List Form → Run Datum
  | [_, expression] => inner engine scope expression
  | _ => Run.fail (.malformed .quote)

/-- Evaluates a special form. -/
def evalSpecial (inner : Evaluation) (engine : EngineId) (scope : ScopeId)
    (special : SpecialForm) (items : List Form) : Run Datum := do
  Run.record engine fun machine =>
    .form special scope ((machine.scopes[scope]?.map Scope.name).getD "")
  match special with
  | .define => evalDefine inner engine scope items
  | .lambda => evalLambda engine scope items
  | .conditional => evalIf inner engine scope items
  | .quote => evalQuote inner engine scope items

/-- The special form that a list is, if its head is reserved. -/
def special? : List Form → Option SpecialForm
  | head :: _ => head.symbolName?.bind SpecialForm.ofName?
  | [] => none

/-- Evaluates a list that is no special form. -/
def evalOrdinary (inner : Evaluation) (engine : EngineId) (scope : ScopeId)
    (items : List Form) : Run Datum := do
  match ← items.mapM (inner engine scope) with
  | .function procedure :: arguments => apply inner engine procedure arguments
  | values => return .list values

/-- Evaluates a list. -/
def evalList (inner : Evaluation) (engine : EngineId) (scope : ScopeId)
    (items : List Form) : Run Datum :=
  match special? items with
  | some special => evalSpecial inner engine scope special items
  | none => evalOrdinary inner engine scope items

/-- Evaluates an atom: literals are their own values, and symbols are resolved. -/
def evalAtom (scope : ScopeId) : Atom → Run Datum
  | .int value => return .int value
  | .string text => return .text text
  | .symbol name => Run.resolve scope name

/-- Evaluates a form, given the evaluation of the forms inside.  An absent form is nil at no depth
at all; every other form takes one level. -/
def step (inner : Evaluation) : Evaluation := fun engine scope form =>
  match form with
  | .absent => return .nil
  | .atom _ value => Run.nested engine (evalAtom scope value)
  | .list _ _ items => Run.nested engine (evalList inner engine scope items)

end Eval

/-- Evaluates a form with at most `fuel` evaluations inside one another. -/
def eval : (fuel : Nat) → Evaluation
  | 0, _, _, _ => throw .exhausted
  | fuel + 1, engine, scope, form => Eval.step (eval fuel) engine scope form

/-- Calls a function with at most `fuel` evaluations inside one another. -/
def call (fuel : Nat) (procedure : Procedure) (arguments : List Datum) : Run Datum :=
  Eval.call (eval fuel) procedure arguments

end MiniLisp
