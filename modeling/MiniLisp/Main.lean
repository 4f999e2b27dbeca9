import MiniLisp.CommandLine

/-!
# The program

Joins the command to the files, the environment and the streams of the process.  All that is decided
here is where texts come from and where they go.
-/

namespace MiniLisp.Program

open CommandLine

/-- The content of a file. -/
def readFile (name : String) : IO (Except Fault (List UInt8)) := do
  try
    return .ok (← IO.FS.readBinFile name).toList
  catch error =>
    match error with
    | .noFileOrDirectory .. => return .error (FileFault.notFound.toFault name)
    | .inappropriateType .. => return .error (FileFault.isADirectory.toFault name)
    | _ => return .error (.external s!"open {name}: {error}")

/-- The history that a file holds. -/
def loadHistory (name : String) : IO History := do
  match ← readFile name with
  | .ok content => return History.parse content
  | .error _ => return []

/-- Writes the history to a file, if that is possible. -/
def saveHistory (name : String) (history : History) : IO Unit := do
  try
    IO.FS.writeBinFile name history.render.toByteArray
  catch _ =>
    return

/-- Writes the trace that a machine has gathered and gives the machine without it. -/
def flushTrace (machine : Machine) : IO Machine := do
  IO.eprint (traceText machine)
  return { machine with trace := #[] }

/-- Writes to the output at once. -/
def put (text : String) : IO Unit := do
  let output ← IO.getStdout
  output.putStr text
  output.flush

/-- The bytes of the next line of input, with its newline if it has one, behind those already
read. -/
partial def readLine (input : IO.FS.Stream) (line : Array UInt8) : IO (List UInt8) := do
  let next ← input.read 1
  let line := line ++ next.data
  if next.isEmpty || line.back? == some Text.newline then return line.toList
  else readLine input line

/-- Asks for lines and takes them until the session ends, as `Repl.converse` does; `queue` holds
pieces of the last line that are still to be taken. -/
partial def converse (interpreter : Interpreter) (history : History) (pending : List Text.Glyph)
    (queue : List (List Text.Glyph)) (machine : Machine) : IO History := do
  put (Repl.prompt pending)
  let queue ← match queue with
    | [] => pure (Text.inputLines (← readLine (← IO.getStdin) #[]))
    | queue => pure queue
  match queue with
  | [] =>
    put "\n"
    return history
  | line :: queue =>
    let ((reply, history, waiting), machine) :=
      Repl.takeLine interpreter history pending line machine
    let machine ← flushTrace machine
    put reply.output
    if reply.leaves then return history
    else converse interpreter history waiting queue machine

/-- Evaluates an expression; gives the exit code. -/
def evaluate (interpreter : Interpreter) (expression : String) : IO UInt32 := do
  let ((shown, well), machine) := Repl.evaluate interpreter expression.toList Machine.empty
  let _ ← flushTrace machine
  put shown
  return if well then 0 else 1

/-- Runs scripts; gives the exit code. -/
def runScripts (interpreter : Interpreter) (names : List String) : IO UInt32 := do
  let inputs ← names.mapM fun name => return (name, (← readFile name).map Text.decode)
  let read (name : String) : Except Fault (List Char) :=
    (List.lookup name inputs).getD (.error (FileFault.notFound.toFault name))
  let ((shown, code), machine) :=
    CommandLine.runScripts interpreter read names Machine.empty
  let _ ← flushTrace machine
  put shown
  return code.toUInt32

/-- Opens a session at the prompt; gives the exit code. -/
def openSession (settings : Settings) : IO UInt32 := do
  let home := ((← IO.getEnv "HOME").getD "")
  match settings.historyName? (home != "") with
  | none =>
    IO.eprint missingHome
    return 1
  | some name =>
    let name := if settings.history = "" then s!"{home}/{name}" else name
    put (Repl.banner ++ "\n")
    let history ← converse settings.interpreter (← loadHistory name) [] [] Machine.empty
    saveHistory name history
    return 0

/-- Runs the command; gives the exit code. -/
def run (arguments : List String) : IO UInt32 := do
  match Arguments.parse {} arguments with
  | .settings settings operands =>
    if settings.expression ≠ "" then evaluate settings.interpreter settings.expression
    else if !operands.isEmpty then runScripts settings.interpreter operands
    else openSession settings
  | .help =>
    IO.eprint usage
    return 0
  | .fault reason =>
    IO.eprint (reason.message ++ "\n" ++ usage)
    return 2

end MiniLisp.Program

/-- Runs the command with the arguments of the process. -/
def main (arguments : List String) : IO UInt32 :=
  MiniLisp.Program.run arguments
