import MiniLisp.CommandLine.Flags
import MiniLisp.FileTree
import MiniLisp.Repl

/-!
# The command

The command evaluates an expression given as a flag, runs scripts, or opens a session at the prompt.
-/

namespace MiniLisp.CommandLine

/-- Runs a script and shows the values of its forms, up to the first one that fails; tells whether
all went well. -/
def runScript (interpreter : Interpreter) (input : Except Fault (List Char)) :
    StateM Machine (String × Bool) := do
  let (values, stop) ← interpreter.run input
  let shown := String.join (values.map fun value => Repl.display (.ok value))
  match stop with
  | none => return (shown, true)
  | some stop => return (shown ++ Repl.display (.error stop), false)

/-- Runs scripts one after the other, up to the first one that fails; gives what is shown and the
exit code. -/
def runScripts (interpreter : Interpreter) (read : String → Except Fault (List Char)) :
    List String → StateM Machine (String × Nat)
  | [] => return ("", 0)
  | name :: rest => do
    let (shown, well) ← runScript interpreter (read name)
    if well then
      let (more, code) ← runScripts interpreter read rest
      return (shown ++ more, code)
    else return (shown, 1)

/-- The text of a script. -/
def readScript (tree : FileTree) (name : String) : Except Fault (List Char) :=
  match tree.read name with
  | .ok content => .ok (Text.decode content)
  | .error fault => .error (fault.toFault name)

/-- Runs the scripts with some names. -/
def runFiles (interpreter : Interpreter) (tree : FileTree) (names : List String) :
    StateM Machine (String × Nat) :=
  runScripts interpreter (readScript tree) names

/-- The name of the history file in the home directory. -/
def historyFile : String := ".lisp_history"

/-- What the command finds when it starts: its files, among them those of the home directory if
there is one, and its input. -/
structure World where
  files : FileTree
  hasHome : Bool
  input : List UInt8
  deriving Repr

/-- What the command leaves behind. -/
structure Outcome where
  code : Nat
  output : String
  errors : String
  files : FileTree
  deriving Repr

/-- The interpreter that the settings ask for. -/
def Settings.interpreter (settings : Settings) : Interpreter :=
  { maxDepth := settings.maxDepth, log := if settings.trace then some 0 else none }

/-- The trace as it is written beside the output, without the addresses of scopes. -/
def traceText (machine : Machine) : String :=
  TraceEntry.text (fun _ => "") "trace: " machine.trace.toList

/-- What is shown when a session needs a home directory and there is none. -/
def missingHome : String := "lisp: os.UserHomeDir: $HOME is not defined\n"

/-- The name of the history file, if there is a place for it. -/
def Settings.historyName? (settings : Settings) (hasHome : Bool) : Option String :=
  if settings.history ≠ "" then some settings.history
  else if hasHome then some historyFile
  else none

/-- The history that a file holds; a file that cannot be read holds none. -/
def readHistory (tree : FileTree) (name : String) : History :=
  match tree.read name with
  | .ok content => History.parse content
  | .error _ => []

/-- The files after the history was written, which silently fails. -/
def writeHistory (tree : FileTree) (name : String) (history : History) : FileTree :=
  match tree.write name history.render with
  | .ok written => written
  | .error _ => tree

/-- Carries out what the settings ask for. -/
def perform (settings : Settings) (operands : List String) (world : World) : Outcome :=
  let interpreter := settings.interpreter
  if settings.expression ≠ "" then
    let ((shown, well), machine) :=
      Repl.evaluate interpreter settings.expression.toList Machine.empty
    ⟨if well then 0 else 1, shown, traceText machine, world.files⟩
  else if !operands.isEmpty then
    let ((shown, code), machine) := runFiles interpreter world.files operands Machine.empty
    ⟨code, shown, traceText machine, world.files⟩
  else
    match settings.historyName? world.hasHome with
    | none => ⟨1, "", missingHome, world.files⟩
    | some name =>
      let former := readHistory world.files name
      let ((shown, history), machine) :=
        Repl.session interpreter former (Text.inputLines world.input) Machine.empty
      ⟨0, shown, traceText machine, writeHistory world.files name history⟩

/-- Runs the command with some arguments. -/
def execute (arguments : List String) (world : World) : Outcome :=
  match Arguments.parse {} arguments with
  | .settings settings operands => perform settings operands world
  | .help => ⟨0, "", usage, world.files⟩
  | .fault reason => ⟨2, "", reason.message ++ "\n" ++ usage, world.files⟩

end MiniLisp.CommandLine
