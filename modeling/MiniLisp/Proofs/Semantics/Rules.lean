import MiniLisp.Eval

/-!
# The rules of the language

What a form evaluates to, stated without a machine: no depth, no engines, no trace and no shared
scopes.  A scope chain is an immutable list of frames, a closure carries the chain it was made in,
and the only thing handed on from one evaluation to the next is the number of closures made so far,
which gives every closure an identity of its own.
-/

namespace MiniLisp.Semantics

/-- A function with all that it refers to. -/
inductive Function where
  | builtin (operation : Builtin)
  | closure (identity : Nat) (params : List String) (body : Form)
      (chain : List (List (String × Value Function)))

/-- A value that refers to no machine. -/
abbrev Meaning := Value Function

/-- The bindings of one scope, the latest first. -/
abbrev Frame := List (String × Meaning)

/-- Frames from the inside out. -/
abbrev Chain := List Frame

namespace Function

/-- The name under which calls are reported. -/
def name : Function → String
  | builtin operation => operation.name
  | closure _ _ _ _ => Procedure.closureName

/-- The text of a function. -/
def render : Function → String
  | closure _ params _ _ => "<lambda (" ++ String.intercalate " " params ++ ")>"
  | builtin operation => s!"<function {operation.name}>"

/-- Whether two functions are one and the same. -/
def same : Function → Function → Bool
  | builtin left, builtin right => left == right
  | closure left _ _ _, closure right _ _ _ => left == right
  | _, _ => false

end Function

instance : Callee Function where
  name := Function.name
  render := Function.render
  same := Function.same

namespace Chain

/-- The value that the innermost frame with a binding of a name gives to it. -/
def value? (name : String) (chain : Chain) : Option Meaning :=
  chain.findSome? (List.lookup name)

/-- The chain of a root scope. -/
def root : Chain :=
  [Builtin.all.map fun builtin => (builtin.name, .function (.builtin builtin))]

end Chain

/-- What can be asked of the rules, indexed by the kind of answer: the value of a form, the values
of several forms from left to right, the pairs of a `define`, or the value of a call. -/
inductive Task : Type → Type where
  | form (chain : Chain) (form : Form) : Task Meaning
  | forms (chain : Chain) (items : List Form) : Task (List Meaning)
  | bindings (chain : Chain) (bindings : List Form) : Task (List (String × Meaning))
  | call (callee : Function) (arguments : List Meaning) : Task Meaning

/-- An answer with the number of closures made by then, or a fault. -/
abbrev Outcome (α : Type) := Except Fault (α × Nat)

/-- A form reserves a list for a special form if it is the symbol of that name. -/
def Reserves (special : SpecialForm) (head : Form) : Prop :=
  head.symbolName? = some special.name

/-- A list is ordinary if its head reserves it for no special form. -/
def Ordinary (items : List Form) : Prop :=
  ∀ head rest special, items = head :: rest → ¬Reserves special head

/-- The pair of a binding `(name expression)`. -/
def Binds (binding : Form) (name : String) (expression : Form) : Prop :=
  ∃ token label symbol, binding = .list token label [symbol, expression] ∧
    symbol.symbolName? = some name

/-- `Evaluates task supply outcome`: when `supply` closures have been made, the task comes to the
outcome.  One relation over all tasks, so that induction on a derivation is plain. -/
inductive Evaluates : {α : Type} → Task α → Nat → Outcome α → Prop where
  /-- An absent form is nil. -/
  | absent {chain supply} :
      Evaluates (.form chain .absent) supply (.ok (.nil, supply))
  | int {chain supply token value} :
      Evaluates (.form chain (.atom token (.int value))) supply (.ok (.int value, supply))
  | string {chain supply token text} :
      Evaluates (.form chain (.atom token (.string text))) supply (.ok (.text text, supply))
  | symbol {chain supply token name value} (found : chain.value? name = some value) :
      Evaluates (.form chain (.atom token (.symbol name))) supply (.ok (value, supply))
  | symbolUnbound {chain supply token name} (missing : chain.value? name = none) :
      Evaluates (.form chain (.atom token (.symbol name))) supply (.error (.unbound name))
  /-- All elements of an ordinary list are evaluated before anything else happens. -/
  | elementFails {chain supply token label items fault} (ordinary : Ordinary items)
      (elements : Evaluates (.forms chain items) supply (.error fault)) :
      Evaluates (.form chain (.list token label items)) supply (.error fault)
  /-- A list whose first value is a function is a call of it. -/
  | application {chain supply token label items callee arguments middle outcome}
      (ordinary : Ordinary items)
      (elements :
        Evaluates (.forms chain items) supply (.ok (.function callee :: arguments, middle)))
      (called : Evaluates (.call callee arguments) middle outcome) :
      Evaluates (.form chain (.list token label items)) supply outcome
  /-- Any other list is the list of its values. -/
  | literalList {chain supply token label items values final} (ordinary : Ordinary items)
      (elements : Evaluates (.forms chain items) supply (.ok (values, final)))
      (inert : ∀ callee arguments, values ≠ .function callee :: arguments) :
      Evaluates (.form chain (.list token label items)) supply (.ok (.list values, final))
  /-- The expressions of a `define` see the surrounding chain, its body one new frame of it. -/
  | define {chain supply token label head token' label' bindings body pairs middle outcome}
      (reserved : Reserves .define head)
      (bound : Evaluates (.bindings chain bindings) supply (.ok (pairs, middle)))
      (evaluated : Evaluates (.form (pairs.reverse :: chain) body) middle outcome) :
      Evaluates (.form chain (.list token label [head, .list token' label' bindings, body])) supply
        outcome
  | defineBindingFails {chain supply token label head token' label' bindings body fault}
      (reserved : Reserves .define head)
      (bound : Evaluates (.bindings chain bindings) supply (.error fault)) :
      Evaluates (.form chain (.list token label [head, .list token' label' bindings, body])) supply
        (.error fault)
  | defineMalformed {chain supply token label head rest} (reserved : Reserves .define head)
      (shape : ∀ head' token' label' bindings body,
        head :: rest ≠ [head', .list token' label' bindings, body]) :
      Evaluates (.form chain (.list token label (head :: rest))) supply
        (.error (.malformed .define))
  /-- Every evaluation of a `lambda` makes a closure that differs from all others. -/
  | lambda {chain supply token label head token' label' params body names}
      (reserved : Reserves .lambda head) (named : params.mapM Form.symbolName? = some names) :
      Evaluates (.form chain (.list token label [head, .list token' label' params, body])) supply
        (.ok (.function (.closure supply names body chain), supply + 1))
  | lambdaMalformed {chain supply token label head rest} (reserved : Reserves .lambda head)
      (shape : ∀ head' token' label' params body,
        head :: rest = [head', .list token' label' params, body] →
          params.mapM Form.symbolName? = none) :
      Evaluates (.form chain (.list token label (head :: rest))) supply
        (.error (.malformed .lambda))
  /-- Only the chosen branch of an `if` is evaluated. -/
  | consequent {chain supply token label head condition consequent alternative value middle outcome}
      (reserved : Reserves .conditional head)
      (decided : Evaluates (.form chain condition) supply (.ok (value, middle)))
      (holds : value.truthy = true)
      (evaluated : Evaluates (.form chain consequent) middle outcome) :
      Evaluates (.form chain (.list token label [head, condition, consequent, alternative])) supply
        outcome
  | alternative
      {chain supply token label head condition consequent alternative value middle outcome}
      (reserved : Reserves .conditional head)
      (decided : Evaluates (.form chain condition) supply (.ok (value, middle)))
      (fails : value.truthy = false)
      (evaluated : Evaluates (.form chain alternative) middle outcome) :
      Evaluates (.form chain (.list token label [head, condition, consequent, alternative])) supply
        outcome
  | conditionFails {chain supply token label head condition consequent alternative fault}
      (reserved : Reserves .conditional head)
      (decided : Evaluates (.form chain condition) supply (.error fault)) :
      Evaluates (.form chain (.list token label [head, condition, consequent, alternative])) supply
        (.error fault)
  | conditionalMalformed {chain supply token label head rest}
      (reserved : Reserves .conditional head)
      (shape : ∀ head' condition consequent alternative,
        head :: rest ≠ [head', condition, consequent, alternative]) :
      Evaluates (.form chain (.list token label (head :: rest))) supply
        (.error (.malformed .conditional))
  /-- A `quote` evaluates its expression like any other. -/
  | quote {chain supply token label head expression outcome} (reserved : Reserves .quote head)
      (evaluated : Evaluates (.form chain expression) supply outcome) :
      Evaluates (.form chain (.list token label [head, expression])) supply outcome
  | quoteMalformed {chain supply token label head rest}
      (reserved : Reserves .quote head)
      (shape : ∀ head' expression, head :: rest ≠ [head', expression]) :
      Evaluates (.form chain (.list token label (head :: rest))) supply
        (.error (.malformed .quote))
  /-- Several forms are evaluated from left to right, up to the first that fails. -/
  | formsNil {chain supply} :
      Evaluates (.forms chain []) supply (.ok ([], supply))
  | formsCons {chain supply first rest value middle values final}
      (head : Evaluates (.form chain first) supply (.ok (value, middle)))
      (tail : Evaluates (.forms chain rest) middle (.ok (values, final))) :
      Evaluates (.forms chain (first :: rest)) supply (.ok (value :: values, final))
  | formsHeadFails {chain supply first rest fault}
      (head : Evaluates (.form chain first) supply (.error fault)) :
      Evaluates (.forms chain (first :: rest)) supply (.error fault)
  | formsTailFails {chain supply first rest value middle fault}
      (head : Evaluates (.form chain first) supply (.ok (value, middle)))
      (tail : Evaluates (.forms chain rest) middle (.error fault)) :
      Evaluates (.forms chain (first :: rest)) supply (.error fault)
  /-- Each binding must have its shape when its turn comes. -/
  | bindingsNil {chain supply} :
      Evaluates (.bindings chain []) supply (.ok ([], supply))
  | bindingsCons {chain supply first rest name expression value middle pairs final}
      (shape : Binds first name expression)
      (head : Evaluates (.form chain expression) supply (.ok (value, middle)))
      (tail : Evaluates (.bindings chain rest) middle (.ok (pairs, final))) :
      Evaluates (.bindings chain (first :: rest)) supply (.ok ((name, value) :: pairs, final))
  | bindingMalformed {chain supply first rest}
      (shape : ∀ name expression, ¬Binds first name expression) :
      Evaluates (.bindings chain (first :: rest)) supply (.error (.malformed .define))
  | bindingsHeadFails {chain supply first rest name expression fault}
      (shape : Binds first name expression)
      (head : Evaluates (.form chain expression) supply (.error fault)) :
      Evaluates (.bindings chain (first :: rest)) supply (.error fault)
  | bindingsTailFails {chain supply first rest name expression value middle fault}
      (shape : Binds first name expression)
      (head : Evaluates (.form chain expression) supply (.ok (value, middle)))
      (tail : Evaluates (.bindings chain rest) middle (.error fault)) :
      Evaluates (.bindings chain (first :: rest)) supply (.error fault)
  | builtin {supply operation arguments value} (applied : operation.apply arguments = .ok value) :
      Evaluates (.call (.builtin operation) arguments) supply (.ok (value, supply))
  | builtinFails {supply operation arguments cause}
      (applied : operation.apply arguments = .error cause) :
      Evaluates (.call (.builtin operation) arguments) supply
        (.error (.application operation.name cause))
  /-- The body of a closure runs in one new frame of the chain the closure was made in. -/
  | closure {supply identity params body chain arguments outcome}
      (arity : arguments.length = params.length)
      (evaluated :
        Evaluates (.form ((params.zip arguments).reverse :: chain) body) supply outcome) :
      Evaluates (.call (.closure identity params body chain) arguments) supply outcome
  | closureArity {supply identity params body chain arguments}
      (arity : arguments.length ≠ params.length) :
      Evaluates (.call (.closure identity params body chain) arguments) supply
        (.error (.application Procedure.closureName
          (.wrongArity (.exactly params.length) arguments.length)))

/-- A form comes to an outcome in a root scope. -/
def Answers (form : Form) (outcome : Outcome Meaning) : Prop :=
  Evaluates (.form Chain.root form) 0 outcome

end MiniLisp.Semantics
