/-!
# Glyphs

A text that arrives as bytes need not be well-formed.  Its glyphs are its characters, and every byte
that belongs to none is a glyph of its own, so that no byte is lost.  Programs are read from the
characters alone, where one replacement character stands for each stray byte.
-/

namespace MiniLisp.Text

/-- The character that stands for a byte outside every well-formed sequence. -/
def replacement : Char := '\uFFFD'

/-- One place of a text: a character, or a byte that belongs to none. -/
inductive Glyph where
  | char (character : Char)
  | stray (byte : UInt8)
  deriving DecidableEq, Repr

namespace Glyph

/-- The character that is read in place of a glyph. -/
def character : Glyph → Char
  | char character => character
  | stray _ => replacement

/-- The bytes of a glyph. -/
def bytes : Glyph → List UInt8
  | char character => String.utf8EncodeChar character
  | stray byte => [byte]

/-- Whether a glyph is a stray byte. -/
def isStray : Glyph → Bool
  | char _ => false
  | stray _ => true

end Glyph

/-- The glyphs of some characters. -/
def ofCharacters (text : List Char) : List Glyph :=
  text.map Glyph.char

/-- The characters that are read in place of some glyphs. -/
def characters (text : List Glyph) : List Char :=
  text.map Glyph.character

/-- The bytes of some glyphs. -/
def bytes (text : List Glyph) : List UInt8 :=
  text.flatMap Glyph.bytes

@[simp] theorem characters_ofCharacters (text : List Char) :
    characters (ofCharacters text) = text := by
  simp [characters, ofCharacters, Function.comp_def, Glyph.character]

@[simp] theorem characters_append (left right : List Glyph) :
    characters (left ++ right) = characters left ++ characters right := by
  simp [characters]

end MiniLisp.Text
