import MiniLisp.Form
import MiniLisp.Fault

/-!
# The form of a token

An atom or a string token stands for a form on its own: text that opens with a double quote is a
string, text made only of the digits `0` to `9` is an integer, and anything else is a symbol.
-/

namespace MiniLisp.Form

/-- The largest integer of the language. -/
def maxInt : Nat := 0x7fffffffffffffff

/-- The form that a token stands for.  Asking for the form of an atom without text is a misuse. -/
def ofToken (token : Token) : Except Stop Form :=
  if token.kind.isAtom then
    match token.text.toList with
    | [] => .error (.misuse .emptyAtom)
    | first :: rest =>
      if first = '"' then .ok (.atom token (.string token.text))
      else if (first :: rest).all Char.isDigit then
        let value := Nat.ofDigitChars 10 (first :: rest) 0
        if value ≤ maxInt then .ok (.atom token (.int (Int64.ofNat value)))
        else .error (.fault (.integerRange token.text))
      else .ok (.atom token (.symbol token.text))
  else .error (.fault (.notAnAtom token))

end MiniLisp.Form
