import MiniLisp.Text.Utf8

/-!
# Lines of text

A line ends at a newline; the last line of a text may do without one.  Input is delivered line by
line, and a line that does not fit into the input buffer is delivered in several pieces.  That is
how the line editor `liner` reads input that is no terminal: it takes it from a buffered reader and
gives on whatever that reader documents to deliver for a line.
-/

namespace MiniLisp.Text

/-- The lines of a text, without their line ends.  Nothing follows a final line end. -/
def lines (text : String) : List String :=
  let pieces := (text.toList.splitOn '\n').map String.ofList
  if text.toList.getLast? = some '\n' ∨ text = "" then pieces.dropLast else pieces

/-- The bytes of a line, and whether a newline ends it. -/
structure RawLine where
  bytes : List UInt8
  ended : Bool
  deriving Repr

/-- The code of the newline. -/
def newline : UInt8 := 10

/-- The code of the carriage return. -/
def carriageReturn : UInt8 := 13

/-- The number of bytes that the input buffer holds: the default of buffered readers. -/
def bufferSize : Nat := 4096

/-- The lines of some bytes; a last line without bytes and without newline is none. -/
def rawLines (bytes : List UInt8) : List RawLine :=
  match bytes.splitOn newline |>.reverse with
  | [] => []
  | last :: ended =>
    let ended := ended.reverse.map (⟨·, true⟩)
    if last.isEmpty then ended else ended ++ [⟨last, false⟩]

namespace RawLine

/-- Whether a line fits into the input buffer together with its newline. -/
def fits (line : RawLine) : Bool :=
  line.bytes.length < bufferSize

/-- The text of a line: a carriage return in front of the newline belongs to the line end. -/
def text (line : RawLine) : List Glyph :=
  if line.ended && line.bytes.getLast? == some carriageReturn then glyphs line.bytes.dropLast
  else glyphs line.bytes

/-- The pieces in which a buffered reader delivers a line: as much as the buffer holds at a time,
where a carriage return at the end of the buffer is left for the next piece.  Each step delivers at
least one byte, so `steps` need not exceed the length of the line. -/
def pieces (ended : Bool) : (steps : Nat) → List UInt8 → List (List Glyph)
  | 0, bytes => [text ⟨bytes, ended⟩]
  | steps + 1, bytes =>
    if fits ⟨bytes, ended⟩ then [text ⟨bytes, ended⟩]
    else
      let piece := bytes.take bufferSize
      let piece := if piece.getLast? = some carriageReturn then piece.dropLast else piece
      let rest := bytes.drop piece.length
      if rest.isEmpty && !ended then [glyphs piece]
      else glyphs piece :: pieces ended steps rest

end RawLine

/-- The lines that are read from some input, one for each time the input is asked for a line. -/
def inputLines (input : List UInt8) : List (List Glyph) :=
  (rawLines input).flatMap fun line => RawLine.pieces line.ended line.bytes.length line.bytes

end MiniLisp.Text
