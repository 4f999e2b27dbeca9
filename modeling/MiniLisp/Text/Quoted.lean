import MiniLisp.Text.Glyph
import MiniLisp.Text.Printable

/-!
# Quoted text

Messages quote the text they speak about: it stands between double quotes, the quote and the
backslash are escaped, printable characters stand for themselves, and every other character is
written as an escape.
-/

namespace MiniLisp.Text

/-- The hexadecimal digits of a number in lower case, padded with zeros to a width. -/
def hexadecimal (width number : Nat) : List Char :=
  let digits := Nat.toDigits 16 number
  List.replicate (width - digits.length) '0' ++ digits

/-- How one character is written between the quotes: control characters with a name of their own by
that name, the others by their code in two, four or eight hexadecimal digits. -/
def escaped (character : Char) : List Char :=
  if character = '"' then ['\\', '"']
  else if character = '\\' then ['\\', '\\']
  else if isPrintable character then [character]
  else
    let code := character.toNat
    if code = 0x07 then ['\\', 'a']
    else if code = 0x08 then ['\\', 'b']
    else if code = 0x0c then ['\\', 'f']
    else if code = 0x0a then ['\\', 'n']
    else if code = 0x0d then ['\\', 'r']
    else if code = 0x09 then ['\\', 't']
    else if code = 0x0b then ['\\', 'v']
    else if code < 0x20 ∨ code = 0x7f then '\\' :: 'x' :: hexadecimal 2 code
    else if code < 0x10000 then '\\' :: 'u' :: hexadecimal 4 code
    else '\\' :: 'U' :: hexadecimal 8 code

/-- How one glyph is written between the quotes: a stray byte by its code in two digits. -/
def escapedGlyph : Glyph → List Char
  | .char character => escaped character
  | .stray byte => '\\' :: 'x' :: hexadecimal 2 byte.toNat

/-- Glyphs between double quotes, escaped where needed. -/
def quotedGlyphs (text : List Glyph) : String :=
  String.ofList ('"' :: text.flatMap escapedGlyph ++ ['"'])

/-- A text between double quotes, with its characters escaped where needed. -/
def quoted (text : String) : String :=
  quotedGlyphs (ofCharacters text.toList)

end MiniLisp.Text
