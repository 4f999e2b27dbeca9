import MiniLisp.Procedure

/-!
# Traces

A traced evaluation records every special form it meets, every call and every result, each with the
depth of evaluation at which it happened.
-/

namespace MiniLisp

/-- Something that a trace records. -/
inductive TraceEvent where
  /-- A special form is met in a scope. -/
  | form (special : SpecialForm) (scope : ScopeId) (scopeName : String)
  /-- A function is called. -/
  | call (callee : String) (arguments : List Datum)
  /-- The last open call comes back with a value. -/
  | result (value : Datum)
  deriving Repr

/-- A recorded event with the log it is written to and the depth of evaluation. -/
structure TraceEntry where
  log : Nat
  depth : Nat
  event : TraceEvent
  deriving Repr

/-- An event in words; scopes are counted from one.  Behind the name of a scope stands the mark that
tells it apart in memory: a space and its address in parentheses, or nothing where addresses are
left out. -/
def TraceEvent.render (mark : ScopeId → String) : TraceEvent → String
  | form special scope scopeName =>
    s!"{special.name} [{scope + 1}]: {Text.quoted scopeName}{mark scope}"
  | call callee arguments => s!"apply {callee} {(Value.list arguments).render}"
  | result value => s!"=> {value.render}"

namespace TraceEntry

/-- The greatest width to which the front of a line is padded. -/
def maxWidth : Nat := 1000000

/-- What stands in front of an event: two spaces for each level of depth.  Where that is too wide,
there is no space at all, but a complaint about the width. -/
def margin (entry : TraceEntry) : String :=
  if 2 * entry.depth ≤ maxWidth then String.ofList (List.replicate (2 * entry.depth) ' ')
  else "%!(BADWIDTH)"

/-- An entry as it is written: its margin and the event, and a line end unless the event brings its
own. -/
def render (mark : ScopeId → String) (entry : TraceEntry) : String :=
  let text := entry.margin ++ entry.event.render mark
  if text.toList.getLast? = some '\n' then text else text ++ "\n"

/-- The entries of a log as they are written, each behind an introduction. -/
def text (mark : ScopeId → String) (introduction : String) (entries : List TraceEntry) : String :=
  String.join (entries.map fun entry => introduction ++ entry.render mark)

end TraceEntry

end MiniLisp
