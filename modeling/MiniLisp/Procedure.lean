import MiniLisp.Builtin
import MiniLisp.Form.Print

/-!
# Procedures

The functions of a running program: builtin functions, closures made from a `lambda`, and functions
that the host supplies.
-/

namespace MiniLisp

/-- Scopes are numbered in the order of their creation. -/
abbrev ScopeId := Nat

/-- Engines, which count and bound nested evaluations, are numbered in the order of their
creation. -/
abbrev EngineId := Nat

/-- A function written in the language.  It shares the scope it was created in with everyone else
who holds that scope, and runs in the engine that created it; a closure that the host assembles may
have neither. -/
structure Closure where
  /-- Closures are told apart by this number alone. -/
  identity : Nat
  params : List String
  body : Form
  scope : Option ScopeId
  engine : Option EngineId
  deriving Repr

/-- A function of a running program.  What a host function does is kept by the machine under its
index. -/
inductive Procedure where
  | builtin (operation : Builtin)
  | closure (lambda : Closure)
  | host (index : Nat) (name : String)
  deriving Repr

namespace Procedure

/-- The name under which calls of closures are reported. -/
def closureName : String := "lambda"

/-- The name under which calls are reported. -/
def name : Procedure → String
  | builtin operation => operation.name
  | closure _ => closureName
  | host _ name => name

/-- The text of a function: closures show their parameters, all others their name. -/
def render : Procedure → String
  | closure lambda => "<lambda (" ++ String.intercalate " " lambda.params ++ ")>"
  | procedure => s!"<function {procedure.name}>"

/-- Whether two functions are one and the same. -/
def same : Procedure → Procedure → Bool
  | builtin left, builtin right => left == right
  | closure left, closure right => left.identity == right.identity
  | host left _, host right _ => left == right
  | _, _ => false

/-- A function after a form was added to every labelled list in the body of a closure. -/
def extend (label : Nat) (item : Form) : Procedure → Procedure
  | closure lambda => .closure { lambda with body := Form.extend label item lambda.body }
  | procedure => procedure

end Procedure

instance : Callee Procedure where
  name := Procedure.name
  render := Procedure.render
  same := Procedure.same

/-- A value of a running program. -/
abbrev Datum := Value Procedure

namespace Value

mutual

/-- A value after a form was added to every labelled list in the closures it holds. -/
def extend (label : Nat) (item : Form) : Datum → Datum
  | list items => list (extendItems label item items)
  | function procedure => function (procedure.extend label item)
  | value => value

/-- Extension inside each of several values. -/
def extendItems (label : Nat) (item : Form) : List Datum → List Datum
  | [] => []
  | first :: rest => extend label item first :: extendItems label item rest

end

end Value

end MiniLisp
