import MiniLisp.Text.Lines

/-!
# The history of a session

The texts entered at the prompt are kept, oldest first, and written to a file with one entry on each
line.  Keeping, reading and writing them is the work of the line editor `liner`, whose documented
behaviour the definitions here follow.
-/

namespace MiniLisp

/-- The entries of a history, oldest first. -/
abbrev History := List (List Text.Glyph)

namespace History

/-- The number of entries that are kept, which `liner` gives as its history limit. -/
def limit : Nat := 1000

/-- Adds an entry at the end and drops the oldest one if there are too many, as `liner` does with
every entry, read or appended. -/
def push (history : History) (entry : List Text.Glyph) : History :=
  let longer := history ++ [entry]
  if limit < longer.length then longer.tail else longer

/-- Adds an entry, unless it repeats the last one: what `liner` does when an entry is appended. -/
def add (history : History) (entry : List Text.Glyph) : History :=
  if history.getLast? = some entry then history else history.push entry

/-- Whether a line of a history file can be an entry: it must fit into the input buffer and be
well-formed. -/
def isEntry (line : Text.RawLine) : Bool :=
  line.fits && !line.text.any Text.Glyph.isStray

/-- Reads entries up to the first line that cannot be one. -/
def ofLines (history : History) : List Text.RawLine → History
  | [] => history
  | line :: rest => if isEntry line then ofLines (history.push line.text) rest else history

/-- Reads the content of a history file. -/
def parse (content : List UInt8) : History :=
  ofLines [] (Text.rawLines content)

/-- The content of a history file. -/
def render (history : History) : List UInt8 :=
  history.flatMap fun entry => Text.bytes entry ++ [Text.newline]

@[simp] theorem add_self (history : History) (entry : List Text.Glyph) :
    (history ++ [entry]).add entry = history ++ [entry] := by
  simp [add]

end History

end MiniLisp
