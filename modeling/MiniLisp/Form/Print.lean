import MiniLisp.Form

/-!
# Printing forms

A form is written back as program text on one line, or drawn as a tree with one line for each form.
-/

namespace MiniLisp.Form

mutual

/-- A form as program text: elements are separated by one space, and an absent form is `:nil`. -/
def encode : Form → String
  | absent => ":nil"
  | atom _ value => value.encode
  | list _ _ items => "(" ++ String.intercalate " " (encodeItems items) ++ ")"

/-- The texts of several forms. -/
def encodeItems : List Form → List String
  | [] => []
  | first :: rest => encode first :: encodeItems rest

end

/-- One form without its elements: a list shows their number, an atom its value. -/
def describe : Form → String
  | absent => ""
  | atom _ value => s!"({value.kind.name}): {value.encode}"
  | list _ _ items => s!"({FormKind.list.name})[{items.length}]"

/-- The line of an atom in a tree. -/
def atomLine (position : Position) (value : Atom) : String :=
  s!"({value.kind.name}): {value.encode} [{position.line} {position.column}]\n"

mutual

/-- A form as a tree: each level is indented by four spaces, atoms show their position, and an
absent form is never indented. -/
def tree (level : Nat) : Form → String
  | absent => ":nil\n"
  | atom token value =>
    String.ofList (List.replicate (4 * level) ' ') ++ atomLine (atom token value).position value
  | list _ _ items =>
    String.ofList (List.replicate (4 * level) ' ') ++
      s!"({FormKind.list.name}): [{items.length}]\n" ++ treeItems (level + 1) items

/-- The trees of several forms, one below the other. -/
def treeItems (level : Nat) : List Form → String
  | [] => ""
  | first :: rest => tree level first ++ treeItems level rest

end

@[simp] theorem encodeItems_eq_map (items : List Form) : encodeItems items = items.map encode := by
  induction items with
  | nil => rfl
  | cons first rest ih => simp [encodeItems, ih]

end MiniLisp.Form
