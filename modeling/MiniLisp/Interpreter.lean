import MiniLisp.Eval

/-!
# Interpreters

An interpreter evaluates programs under a depth limit and writes its trace to a log, if it has one.
It keeps nothing between evaluations: each starts in a root scope and an engine of its own.
-/

namespace MiniLisp

/-- The settings of an interpreter. -/
structure Interpreter where
  /-- The limit on nested evaluations; the default limit holds if it is not positive. -/
  maxDepth : Int := 0
  /-- The log that traces are written to. -/
  log : Option Nat := none
  deriving Repr

/-- The evaluations granted beyond the limits of all engines to calls that start an engine of their
own.  The language has no such bound: calls that start engines without end go on until the process
runs out of memory.  The bound makes evaluation a total function, and what needs more is exhausted,
which is neither a value nor a fault. -/
def hostAllowance : Nat := 1000000

/-- Enough fuel for every evaluation that the engines admit. -/
def Machine.fuel (machine : Machine) : Nat :=
  machine.headroom + hostAllowance

namespace Interpreter

/-- The limit on nested evaluations. -/
def limit (interpreter : Interpreter) : Nat :=
  if interpreter.maxDepth ≤ 0 then defaultLimit else interpreter.maxDepth.toNat

/-- The scope in which an evaluation starts: a fresh root scope unless one is given. -/
def startingScope : Option ScopeId → Run ScopeId
  | some scope => pure scope
  | none => Run.newRoot

/-- Evaluates a form in a scope, or in a fresh root scope. -/
def evaluate (interpreter : Interpreter) (form : Form) (scope : Option ScopeId) : Run Datum := do
  let scope ← startingScope scope
  let engine ← Run.newEngine interpreter.limit interpreter.log
  let fuel := (← get).fuel
  eval fuel engine scope form

/-- Evaluates the single form of a program text. -/
def interpret (interpreter : Interpreter) (source : List Char) : Run Datum := do
  let form ← liftM (Form.parse source)
  interpreter.evaluate form none

/-- Evaluates forms one after the other, each in a root scope of its own, up to the first one that
fails.  The values before a failure are kept. -/
def evaluateAll (interpreter : Interpreter) :
    List Form → StateM Machine (List Datum × Option Stop)
  | [] => return ([], none)
  | form :: rest => do
    match ← interpreter.evaluate form none with
    | .ok value =>
      let (values, stop) ← evaluateAll interpreter rest
      return (value :: values, stop)
    | .error stop => return ([], some stop)

/-- Evaluates all top-level forms of a program text. -/
def interpretAll (interpreter : Interpreter) (source : List Char) :
    StateM Machine (List Datum × Option Stop) :=
  match Form.parseAll source with
  | .ok forms => interpreter.evaluateAll forms
  | .error stop => return ([], some stop)

/-- Evaluates all top-level forms of a text that is read from elsewhere, unless reading it fails. -/
def run (interpreter : Interpreter) (input : Except Fault (List Char)) :
    StateM Machine (List Datum × Option Stop) :=
  match input with
  | .ok source => interpreter.interpretAll source
  | .error fault => return ([], some (.fault fault))

end Interpreter

end MiniLisp
