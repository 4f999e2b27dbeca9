import MiniLisp.Form.OfToken
import MiniLisp.Token.Scan

/-!
# Reading forms

A reader turns tokens into forms.  It keeps the lists that are still open on a stack, innermost
first, so that it can stop at an offending token and go on behind it later.
-/

namespace MiniLisp

/-- A list that is still open: its opening parenthesis and its elements so far, newest first. -/
structure OpenList where
  opener : Token
  items : List Form
  deriving Repr

/-- The list as it would be if it were closed now. -/
def OpenList.close (pending : OpenList) : Form :=
  .list pending.opener none pending.items.reverse

/-- The state of reading: the tokens ahead, the open lists from the inside out, the top-level forms
newest first, and the last fault that was met. -/
structure Reader where
  ahead : List Token
  pending : List OpenList
  finished : List Form
  fault : Option Fault
  deriving Repr

namespace Reader

/-- A reader in front of some tokens. -/
def ofTokens (tokens : List Token) : Reader :=
  ⟨tokens, [], [], none⟩

/-- Adds a form to the innermost open list, or to the top level if no list is open. -/
def push (form : Form) : List OpenList → List Form → List OpenList × List Form
  | [], finished => ([], form :: finished)
  | innermost :: outer, finished =>
    (⟨innermost.opener, form :: innermost.items⟩ :: outer, finished)

/-- Stops in front of `ahead` because of `cause` at `token`. -/
def stopAt (cause : Fault) (token : Token) (ahead : List Token) (pending : List OpenList)
    (finished : List Form) : Reader :=
  ⟨ahead, pending, finished, some (.reading cause token)⟩

/-- The token that is read when no token is left. -/
def pastEnd : Token := Token.endAt ⟨0, 0⟩

/-- Stops at the token that marks the end; lists that are still open make this a fault. -/
def stopAtEnd (token : Token) (ahead : List Token) (pending : List OpenList) (finished : List Form)
    (fault : Option Fault) : Reader :=
  if pending.isEmpty then ⟨ahead, pending, finished, fault⟩
  else stopAt .unexpectedEnd token ahead pending finished

/-- Reads up to and including the first token that marks the end or offends. -/
def consume (pending : List OpenList) (finished : List Form) (fault : Option Fault) :
    List Token → Except Stop Reader
  | [] => .ok (stopAtEnd pastEnd [] pending finished fault)
  | token :: ahead =>
    match token.kind with
    | .endOfInput => .ok (stopAtEnd token ahead pending finished fault)
    | .openList => consume (⟨token, []⟩ :: pending) finished fault ahead
    | .closeList =>
      match pending with
      | [] => .ok (stopAt .unexpectedToken token ahead [] finished)
      | innermost :: outer =>
        let (pending, finished) := push innermost.close outer finished
        consume pending finished fault ahead
    | .atom | .string =>
      match Form.ofToken token with
      | .ok form =>
        let (pending, finished) := push form pending finished
        consume pending finished fault ahead
      | .error (.fault cause) => .ok (stopAt cause token ahead pending finished)
      | .error stop => .error stop
    | .invalid => .ok (stopAt .unexpectedToken token ahead pending finished)

/-- Goes on reading behind the last stop.  The last fault stays until another one replaces it. -/
def run (reader : Reader) : Except Stop Reader :=
  consume reader.pending reader.finished reader.fault reader.ahead

/-- The top-level forms in order, when the form `inner` ends the innermost of the open lists and all
of them are closed where they are. -/
def closeAround (inner : Form) (finished : List Form) : List OpenList → List Form
  | [] => (inner :: finished).reverse
  | outer :: rest => closeAround (OpenList.close ⟨outer.opener, inner :: outer.items⟩) finished rest

/-- The top-level forms read so far, open lists included. -/
def forms (reader : Reader) : List Form :=
  match reader.pending with
  | [] => reader.finished.reverse
  | innermost :: outer => closeAround innermost.close reader.finished outer

end Reader

namespace Form

/-- All top-level forms of some tokens. -/
def readAll (tokens : List Token) : Except Stop (List Form) := do
  let reader ← (Reader.ofTokens tokens).run
  match reader.fault with
  | some fault => .error (.fault fault)
  | none => .ok reader.forms

/-- The single form of some tokens.  Asking for it when the end is marked in front of the first
token is a misuse. -/
def readOne (tokens : List Token) : Except Stop Form :=
  if tokens.all fun token => token.kind == .endOfInput then
    .error (.fault (.reading .endOfInput none))
  else do
    match ← readAll tokens with
    | [] => .error (.misuse .noForm)
    | [form] => .ok form
    | _ :: second :: _ => .error (.fault (.reading .unexpectedToken second.token?))

/-- All top-level forms of a program text. -/
def parseAll (source : List Char) : Except Stop (List Form) :=
  readAll (Token.tokenize source)

/-- The single form of a program text. -/
def parse (source : List Char) : Except Stop Form :=
  readOne (Token.tokenize source)

/-- The single form of bare lexemes. -/
def parseLexemes (lexemes : List String) : Except Stop Form :=
  readOne (lexemes.map Token.ofLexeme)

end Form

end MiniLisp
