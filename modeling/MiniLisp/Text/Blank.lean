import MiniLisp.Text.Glyph

/-!
# Blank characters

Blanks separate the tokens of a program and are dropped at both ends of a line typed at the prompt.
-/

namespace MiniLisp.Text

/-- A blank is a space separator, a line or paragraph separator, or one of the control characters
for tabulation and line ends. -/
def isBlank (character : Char) : Bool :=
  let code := character.toNat
  (0x09 ≤ code && code ≤ 0x0d) || code == 0x20 || code == 0x85 || code == 0xa0 || code == 0x1680 ||
    (0x2000 ≤ code && code ≤ 0x200a) || code == 0x2028 || code == 0x2029 || code == 0x202f ||
    code == 0x205f || code == 0x3000

/-- A text without the blanks at its start and at its end. -/
def trim (text : List Glyph) : List Glyph :=
  let blank (glyph : Glyph) : Bool := isBlank glyph.character
  ((text.dropWhile blank).reverse.dropWhile blank).reverse

@[simp] theorem trim_nil : trim [] = [] := rfl

end MiniLisp.Text
