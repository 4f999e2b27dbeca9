import MiniLisp.ValueType

/-!
# Values

The values of the language over a type of functions.  Values never look inside a function: all they
need is its name, its rendering and its identity, so printing, truth and equality are defined here
once for every representation of functions.
-/

namespace MiniLisp

/-- A runtime value whose functions are elements of `φ`. -/
inductive Value (φ : Type) where
  | nil
  | int (value : Int64)
  | text (value : String)
  | bool (value : Bool)
  | list (items : List (Value φ))
  | function (callee : φ)
  deriving Repr, Inhabited

/-- What values know of the functions among them. -/
class Callee (φ : Type) where
  /-- The name under which calls are reported. -/
  name : φ → String
  /-- The text of the function itself. -/
  render : φ → String
  /-- Whether two functions are one and the same. -/
  same : φ → φ → Bool

namespace Value

variable {φ : Type}

/-- The type of a value. -/
def type : Value φ → ValueType
  | nil => .nil
  | int _ => .int
  | text _ => .text
  | bool _ => .bool
  | list _ => .list
  | function _ => .function

/-- A value counts as true in a condition unless it is nil, false, zero, the empty text or the empty
list. -/
def truthy : Value φ → Bool
  | nil => false
  | int value => value != 0
  | text value => value != ""
  | bool value => value
  | list items => !items.isEmpty
  | function _ => true

mutual

/-- The text of a value. -/
def render [Callee φ] : Value φ → String
  | nil => ":nil"
  | int value => toString value.toInt
  | text value => value
  | bool true => ":true"
  | bool false => ":false"
  | list items => "[" ++ String.intercalate " " (renderItems items) ++ "]"
  | function callee => Callee.render callee

/-- The texts of several values. -/
def renderItems [Callee φ] : List (Value φ) → List String
  | [] => []
  | first :: rest => render first :: renderItems rest

end

mutual

/-- Values are equal if they have the same type and the same content; lists are compared element by
element and functions by identity. -/
def equal [Callee φ] : Value φ → Value φ → Bool
  | nil, nil => true
  | int left, int right => left == right
  | text left, text right => left == right
  | bool left, bool right => left == right
  | list left, list right => equalItems left right
  | function left, function right => Callee.same left right
  | _, _ => false

/-- Equality of lists, element by element. -/
def equalItems [Callee φ] : List (Value φ) → List (Value φ) → Bool
  | [], [] => true
  | left :: lefts, right :: rights => equal left right && equalItems lefts rights
  | _, _ => false

end

@[simp] theorem renderItems_eq_map [Callee φ] (items : List (Value φ)) :
    renderItems items = items.map render := by
  induction items with
  | nil => rfl
  | cons first rest ih => simp [renderItems, ih]

end Value

end MiniLisp
