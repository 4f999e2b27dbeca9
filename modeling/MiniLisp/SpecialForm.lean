/-!
# Special forms

Four names are reserved at the head of a list: such a list decides for itself which of its parts are
evaluated and where.
-/

namespace MiniLisp

/-- The special forms of the language. -/
inductive SpecialForm where
  | define
  | lambda
  | conditional
  | quote
  deriving DecidableEq, Repr

namespace SpecialForm

/-- The reserved name of a special form. -/
def name : SpecialForm → String
  | define => "define"
  | lambda => "lambda"
  | conditional => "if"
  | quote => "quote"

/-- The shape that a special form must have. -/
def usage : SpecialForm → String
  | define => "(define ((name expr) ...) body)"
  | lambda => "(lambda (param ...) body)"
  | conditional => "(if cond consequent alternative)"
  | quote => "(quote expr)"

/-- All special forms, in the order in which they are listed. -/
def all : List SpecialForm := [define, lambda, conditional, quote]

/-- The special form with a reserved name. -/
def ofName? (name : String) : Option SpecialForm :=
  all.find? fun form => form.name == name

@[simp] theorem ofName?_name (form : SpecialForm) : ofName? form.name = some form := by
  cases form <;> decide

end SpecialForm

end MiniLisp
