import MiniLisp.Fault
import MiniLisp.Value

/-!
# Builtin functions

The functions that every root scope holds.  Each checks the number of its arguments first, their
types next and their values last.  Integers have 64 bits and never wrap: a result outside that range
is a fault.
-/

namespace MiniLisp

/-- The builtin functions.  Two names for one operation are two functions. -/
inductive Builtin where
  | add
  | sub
  | mul
  | div
  | equal
  | eq
  | notEqual
  | ampersand
  | conj
  | disj
  | neg
  | less
  | greater
  | lessEqual
  | greaterEqual
  | car
  | cdr
  | cons
  | list
  | length
  | isEmpty
  deriving DecidableEq, Repr

namespace Builtin

/-- The name to which a builtin function is bound. -/
def name : Builtin → String
  | add => "+"
  | sub => "-"
  | mul => "*"
  | div => "div"
  | equal => "="
  | eq => "eq?"
  | notEqual => "!="
  | ampersand => "&"
  | conj => "and"
  | disj => "or"
  | neg => "not"
  | less => "<"
  | greater => ">"
  | lessEqual => "<="
  | greaterEqual => ">="
  | car => "car"
  | cdr => "cdr"
  | cons => "cons"
  | list => "list"
  | length => "len"
  | isEmpty => "empty?"

/-- All builtin functions, in the order in which they are listed. -/
def all : List Builtin :=
  [add, sub, mul, div, equal, eq, notEqual, ampersand, conj, disj, neg, less, greater, lessEqual,
    greaterEqual, car, cdr, cons, list, length, isEmpty]

/-- The builtin function with a name. -/
def ofName? (name : String) : Option Builtin :=
  all.find? fun builtin => builtin.name == name

theorem mem_all (builtin : Builtin) : builtin ∈ all := by
  cases builtin <;> decide

variable {φ : Type}

/-- The smallest integer. -/
def minInt : Int := -0x8000000000000000

/-- The largest integer. -/
def maxInt : Int := 0x7fffffffffffffff

/-- An exact result as an integer of the language, if it is one. -/
def fit? (result : Int) : Option Int64 :=
  if minInt ≤ result ∧ result ≤ maxInt then some (Int64.ofInt result) else none

/-- An exact result as an integer of the language; a result out of range is shown in the fault. -/
def checked (result : Int) : Except Fault Int64 :=
  match fit? result with
  | some value => .ok value
  | none => .error (.overflow (some result))

/-- An argument as an integer. -/
def integer : Value φ → Except Fault Int64
  | .int value => .ok value
  | value => .error (.wrongType .int value.type)

/-- An argument as a list. -/
def items : Value φ → Except Fault (List (Value φ))
  | .list items => .ok items
  | value => .error (.wrongType .list value.type)

/-- The only argument. -/
def single : List (Value φ) → Except Fault (Value φ)
  | [argument] => .ok argument
  | arguments => .error (.wrongArity (.exactly 1) arguments.length)

/-- The two arguments. -/
def pair : List (Value φ) → Except Fault (Value φ × Value φ)
  | [left, right] => .ok (left, right)
  | arguments => .error (.wrongArity (.exactly 2) arguments.length)

/-- The two arguments as integers. -/
def integerPair (arguments : List (Value φ)) : Except Fault (Int64 × Int64) := do
  let (left, right) ← pair arguments
  let left ← integer left
  let right ← integer right
  return (left, right)

/-- The elements of the only argument. -/
def singleList (arguments : List (Value φ)) : Except Fault (List (Value φ)) := do
  items (← single arguments)

/-- The sum of two integers, or two texts or lists one after the other.  Both must have the same
type. -/
def plus : Value φ → Value φ → Except Fault (Value φ)
  | .int left, .int right => return .int (← checked (left.toInt + right.toInt))
  | .text left, .text right => .ok (.text (left ++ right))
  | .list left, .list right => .ok (.list (left ++ right))
  | left, right =>
    if left.type = right.type then .error (.wrongType .int left.type)
    else .error (.wrongType left.type right.type)

/-- The difference of two integers. -/
def minus (left right : Int64) : Except Fault Int64 :=
  checked (left.toInt - right.toInt)

/-- The product of two integers. -/
def times (left right : Int64) : Except Fault Int64 :=
  checked (left.toInt * right.toInt)

/-- The quotient of two integers, cut off toward zero. -/
def quotient (left right : Int64) : Except Fault Int64 :=
  if right = 0 then .error .divisionByZero
  else
    match fit? (left.toInt.tdiv right.toInt) with
    | some value => .ok value
    | none => .error (.overflow none)

/-- The first value if it is false, the second one otherwise. -/
def both (left right : Value φ) : Value φ :=
  if left.truthy then right else left

/-- The first value if it is true, the second one otherwise. -/
def either (left right : Value φ) : Value φ :=
  if left.truthy then left else right

/-- A comparison of two integers. -/
def compare (holds : Int64 → Int64 → Bool) (arguments : List (Value φ)) :
    Except Fault (Value φ) := do
  let (left, right) ← integerPair arguments
  return .bool (holds left right)

/-- The value of a builtin function for some arguments. -/
def apply [Callee φ] (builtin : Builtin) (arguments : List (Value φ)) : Except Fault (Value φ) :=
  match builtin with
  | add =>
    match arguments with
    | [] => .error (.wrongArity (.atLeast 1) 0)
    | first :: rest => rest.foldlM plus first
  | sub =>
    match arguments with
    | [] => .error (.wrongArity (.atLeast 1) 0)
    | first :: rest => do
      let first ← integer first
      let rest ← rest.mapM integer
      return .int (← rest.foldlM minus first)
  | mul => do
    let (left, right) ← integerPair arguments
    return .int (← times left right)
  | div => do
    let (left, right) ← integerPair arguments
    return .int (← quotient left right)
  | equal | eq => do
    let (left, right) ← pair arguments
    return .bool (left.equal right)
  | notEqual => do
    let (left, right) ← pair arguments
    return .bool (!left.equal right)
  | ampersand | conj => do
    let (left, right) ← pair arguments
    return both left right
  | disj => do
    let (left, right) ← pair arguments
    return either left right
  | neg => do
    return .bool (!(← single arguments).truthy)
  | less => compare (fun left right => left < right) arguments
  | greater => compare (fun left right => left > right) arguments
  | lessEqual => compare (fun left right => left ≤ right) arguments
  | greaterEqual => compare (fun left right => left ≥ right) arguments
  | car => do
    match ← singleList arguments with
    | [] => .error .headOfEmpty
    | first :: _ => return first
  | cdr => do
    return .list (← singleList arguments).tail
  | cons => do
    let (first, rest) ← pair arguments
    return .list (first :: (← items rest))
  | list => .ok (.list arguments)
  | length => do
    return .int (Int64.ofNat (← singleList arguments).length)
  | isEmpty => do
    return .bool (← singleList arguments).isEmpty

end Builtin

end MiniLisp
