import MiniLisp.Form

/-!
# The height of a form

How many evaluations stand inside one another while the text of a form is followed: one for an atom,
one more than for its tallest element for a list, and none for an absent form.
-/

namespace MiniLisp.Form

mutual

/-- The height of a form. -/
def height : Form → Nat
  | absent => 0
  | atom _ _ => 1
  | list _ _ items => 1 + heightIn items

/-- The height of the tallest of several forms. -/
def heightIn : List Form → Nat
  | [] => 0
  | first :: rest => max first.height (heightIn rest)

end

end MiniLisp.Form
