import MiniLisp.Token

/-!
# Forms

A program is a sequence of forms: integers, strings, symbols and lists of forms.  Forms that were
read remember the token they start with.  A form may also be absent, which only a host can write.
-/

namespace MiniLisp

/-- A form that is not a list.  A string keeps its delimiting quotes. -/
inductive Atom where
  | int (value : Int64)
  | string (text : String)
  | symbol (name : String)
  deriving DecidableEq, Repr

/-- A form.  A list may carry a label by which a host that holds it can extend it later. -/
inductive Form where
  | absent
  | atom (token : Option Token) (value : Atom)
  | list (token : Option Token) (label : Option Nat) (items : List Form)
  deriving Repr, Inhabited

/-- The kinds of forms that are not absent. -/
inductive FormKind where
  | int
  | string
  | symbol
  | list
  deriving DecidableEq, Repr

namespace FormKind

/-- The name under which a kind is shown. -/
def name : FormKind → String
  | int => "int"
  | string => "string"
  | symbol => "symbol"
  | list => "list"

/-- Kinds are numbered by a family bit, 128 for atoms and 256 for lists, and a bit of their own. -/
def code : FormKind → Nat
  | int => 129
  | string => 130
  | symbol => 132
  | list => 257

/-- All kinds. -/
def all : List FormKind := [int, string, symbol, list]

/-- The kind with a number, if there is one. -/
def ofCode? (code : Nat) : Option FormKind :=
  all.find? fun kind => kind.code == code

@[simp] theorem ofCode?_code (kind : FormKind) : ofCode? kind.code = some kind := by
  cases kind <;> rfl

end FormKind

namespace Atom

/-- The kind of an atom. -/
def kind : Atom → FormKind
  | int _ => .int
  | string _ => .string
  | symbol _ => .symbol

/-- An atom as it is written in a program. -/
def encode : Atom → String
  | int value => toString value.toInt
  | string text => text
  | symbol name => name

end Atom

namespace Form

/-- An integer that was not read from a text. -/
def int (value : Int64) : Form := .atom none (.int value)

/-- A string that was not read from a text. -/
def string (text : String) : Form := .atom none (.string text)

/-- A symbol that was not read from a text. -/
def symbol (name : String) : Form := .atom none (.symbol name)

/-- A list that was not read from a text. -/
def ofList (items : List Form) : Form := .list none none items

/-- The token a form starts with. -/
def token? : Form → Option Token
  | absent => none
  | atom token _ => token
  | list token _ _ => token

/-- The position of the first character of a form; the origin for a form that was not read. -/
def position (form : Form) : Position :=
  match form.token? with
  | some token => token.position
  | none => ⟨0, 0⟩

/-- The kind of a form, unless it is absent. -/
def kind? : Form → Option FormKind
  | absent => none
  | atom _ value => some value.kind
  | list _ _ _ => some .list

/-- The name of a symbol. -/
def symbolName? : Form → Option String
  | atom _ (.symbol name) => some name
  | _ => none

/-- The elements of a list. -/
def items? : Form → Option (List Form)
  | list _ _ items => some items
  | _ => none

mutual

/-- Two forms are the same if they have the same shape and the same atoms, wherever they were
read. -/
def same : Form → Form → Bool
  | absent, absent => true
  | atom _ left, atom _ right => left == right
  | list _ _ left, list _ _ right => sameItems left right
  | _, _ => false

/-- Sameness of lists, element by element. -/
def sameItems : List Form → List Form → Bool
  | [], [] => true
  | left :: lefts, right :: rights => same left right && sameItems lefts rights
  | _, _ => false

end

mutual

/-- A form after `item` was added at the end of every list with the given label. -/
def extend (label : Nat) (item : Form) : Form → Form
  | absent => absent
  | atom token value => atom token value
  | list token own items =>
    let items := extendItems label item items
    list token own (if own = some label then items ++ [item] else items)

/-- Extension inside each of several forms. -/
def extendItems (label : Nat) (item : Form) : List Form → List Form
  | [] => []
  | first :: rest => extend label item first :: extendItems label item rest

end

end Form

end MiniLisp
