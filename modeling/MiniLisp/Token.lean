import MiniLisp.Text.Quoted

/-!
# Tokens

A token is a lexical unit of a program: its kind, its text and the position of its first character.
-/

namespace MiniLisp

/-- A place in a text.  Scanned positions count lines and columns from one; tokens that a host puts
together by hand may carry any numbers. -/
structure Position where
  line : Int
  column : Int
  deriving DecidableEq, Repr

namespace Position

/-- The position of the first character of a text. -/
def start : Position := ⟨1, 1⟩

/-- The position behind a character: a newline opens the next line. -/
def next (position : Position) (character : Char) : Position :=
  if character = '\n' then ⟨position.line + 1, 1⟩ else ⟨position.line, position.column + 1⟩

/-- The position behind a whole text. -/
def after (position : Position) (text : List Char) : Position :=
  text.foldl next position

@[simp] theorem after_nil (position : Position) : position.after [] = position := rfl

@[simp] theorem after_cons (position : Position) (character : Char) (rest : List Char) :
    position.after (character :: rest) = (position.next character).after rest := rfl

@[simp] theorem after_append (position : Position) (left right : List Char) :
    position.after (left ++ right) = (position.after left).after right := by
  simp [after]

end Position

/-- The kinds of lexical units. -/
inductive TokenKind where
  /-- Text that is no lexical unit. -/
  | invalid
  /-- An opening parenthesis. -/
  | openList
  /-- A closing parenthesis. -/
  | closeList
  /-- Text between double quotes. -/
  | string
  /-- Any other run of characters. -/
  | atom
  /-- The end of the program. -/
  | endOfInput
  deriving DecidableEq, Repr

namespace TokenKind

/-- The name under which a kind is shown. -/
def name : TokenKind → String
  | invalid => "invalid"
  | openList => "open_expression"
  | closeList => "close_expression"
  | string => "string"
  | atom => "atom"
  | endOfInput => "EOF"

/-- The kind with a number; numbers without a kind are invalid. -/
def ofNumber : Nat → TokenKind
  | 1 => openList
  | 2 => closeList
  | 3 => string
  | 4 => atom
  | 5 => endOfInput
  | _ => invalid

/-- Atoms and strings are the tokens that stand for a form on their own. -/
def isAtom : TokenKind → Bool
  | atom | string => true
  | _ => false

end TokenKind

/-- A lexical unit. -/
structure Token where
  kind : TokenKind
  text : String
  position : Position
  deriving DecidableEq, Repr

namespace Token

/-- The token that marks the end of a program. -/
def endAt (position : Position) : Token :=
  ⟨.endOfInput, "", position⟩

/-- A token on one line: kind, quoted text and position. -/
def render (token : Token) : String :=
  s!"(:{token.kind.name} {Text.quoted token.text} [{token.position.line} {token.position.column}])"

/-- The token of a bare lexeme, without a position: a lone parenthesis is that parenthesis, and all
else is an atom. -/
def ofLexeme (lexeme : String) : Token :=
  let kind : TokenKind :=
    if lexeme = "(" then .openList else if lexeme = ")" then .closeList else .atom
  ⟨kind, lexeme, ⟨0, 0⟩⟩

end Token

end MiniLisp
