/-!
# Types of values

Every runtime value has one of six types, and messages name them.
-/

namespace MiniLisp

/-- The type of a runtime value. -/
inductive ValueType where
  | nil
  | int
  | text
  | bool
  | list
  | function
  deriving DecidableEq, Repr

namespace ValueType

/-- The name under which a type is shown. -/
def name : ValueType → String
  | nil => "nil"
  | int => "int"
  | text => "text"
  | bool => "bool"
  | list => "list"
  | function => "function"

/-- All types, in the order of their numbers. -/
def all : List ValueType := [nil, int, text, bool, list, function]

end ValueType

end MiniLisp
