import MiniLisp.Interpreter
import MiniLisp.Repl.History

/-!
# The prompt

A session at the prompt reads lines until they make up complete forms, answers them one text at a
time and keeps them in its history.  A line may also be a command about the session itself.
-/

namespace MiniLisp

namespace Repl

/-- What is shown when a session begins. -/
def banner : String :=
  "Minimal Lisp REPL\nType help for examples, exit or Ctrl+D to leave."

/-- What the command `help` shows. -/
def helpText : String :=
  "Expressions are written in prefix notation:\n\n" ++
  "  (+ 1 2 3)                                         => 6\n" ++
  "  (div 7 2)                                         => 3\n" ++
  "  (if (< 1 2) \"yes\" \"no\")                           => \"yes\"\n" ++
  "  (car (1 2 3))                                     => 1\n" ++
  "  (define ((sq (lambda (x) (* x x)))) (sq 12))      => 144\n\n" ++
  "Special forms: " ++ String.intercalate " " (SpecialForm.all.map SpecialForm.name) ++ "\n" ++
  "Primitives:    " ++ String.intercalate " " (Builtin.all.map Builtin.name) ++ "\n\n" ++
  "Commands:\n" ++
  "  help, :help       Show this text\n" ++
  "  exit, :exit       Leave the REPL\n" ++
  "  :tokens EXPR      Show the tokens of EXPR\n" ++
  "  :ast EXPR         Show the tree of EXPR\n"

/-- What a text entered at the prompt asks for. -/
inductive Request where
  | nothing
  | leave
  | help
  | tokens (source : List Char)
  | tree (source : List Char)
  | unknown (command : List Text.Glyph)
  | evaluate (source : List Char)
  deriving Repr

namespace Request

/-- The words that end a session. -/
def leaving : List String := ["exit", ":exit", ":quit"]

/-- The words that ask for help. -/
def helping : List String := ["help", ":help"]

/-- The command that shows tokens. -/
def tokensCommand : List Char := ":tokens".toList

/-- The command that shows a tree. -/
def treeCommand : List Char := ":ast".toList

/-- Reads a request from a text, without the blanks around it. -/
def ofText (text : List Text.Glyph) : Request :=
  let line := Text.trim text
  let source := Text.characters line
  if source.isEmpty then nothing
  else if leaving.contains (String.ofList source) then leave
  else if helping.contains (String.ofList source) then help
  else if tokensCommand.isPrefixOf source then tokens (source.drop tokensCommand.length)
  else if treeCommand.isPrefixOf source then tree (source.drop treeCommand.length)
  else if source.head? = some ':' then unknown line
  else evaluate source

end Request

/-- An outcome in words: the value, or why there is none. -/
def display (outcome : Except Stop Datum) : String :=
  match outcome with
  | .ok value => value.render ++ "\n"
  | .error (.fault fault) => fault.report ++ "\n"
  | .error _ => ""

/-- Evaluates the single form of a text; tells what to show and whether there is a value. -/
def evaluate (interpreter : Interpreter) (source : List Char) : StateM Machine (String × Bool) := do
  let outcome ← interpreter.interpret source
  return (display outcome, outcome.isOk)

/-- The tokens of a text, one on each line. -/
def showTokens (source : List Char) : String :=
  String.join ((Token.scan source).map fun token => token.render ++ "\n")

/-- The tree of the single form of a text. -/
def showTree (source : List Char) : String :=
  match Form.parse source with
  | .ok form => form.tree 0
  | .error (.fault fault) => fault.report ++ "\n"
  | .error _ => ""

/-- The answer to a request: what to show, and whether the session ends. -/
structure Reply where
  output : String
  leaves : Bool
  deriving Repr

/-- Answers a text entered at the prompt. -/
def handle (interpreter : Interpreter) (text : List Text.Glyph) : StateM Machine Reply :=
  match Request.ofText text with
  | .nothing => return ⟨"", false⟩
  | .leave => return ⟨"", true⟩
  | .help => return ⟨helpText, false⟩
  | .tokens source => return ⟨showTokens source, false⟩
  | .tree source => return ⟨showTree source, false⟩
  | .unknown command =>
    let shown := Text.quotedGlyphs command
    return ⟨s!"unknown command {shown}, type help for a list of commands\n", false⟩
  | .evaluate source => return ⟨(← evaluate interpreter source).1, false⟩

/-- Whether a text ends inside a list, so that more lines can complete it. -/
def incomplete (text : List Char) : Bool :=
  match Form.parseAll text with
  | .error (.fault fault) => fault.cause? = some .unexpectedEnd
  | _ => false

/-- The prompt for the next line, when the text `pending` waits for more. -/
def prompt (pending : List Text.Glyph) : String :=
  if pending.isEmpty then "lisp> " else "  ... "

/-- The text `pending` with one more line. -/
def join (pending line : List Text.Glyph) : List Text.Glyph :=
  if pending.isEmpty then line else pending ++ .char '\n' :: line

/-- The texts that lines make up behind the text `pending`: each takes lines until it is no longer
incomplete.  What the lines at the end leave incomplete is given apart. -/
def texts (pending : List Text.Glyph) :
    List (List Text.Glyph) → List (List Text.Glyph) × List Text.Glyph
  | [] => ([], pending)
  | line :: rest =>
    let text := join pending line
    if incomplete (Text.characters text) then texts text rest
    else
      let (more, unfinished) := texts [] rest
      (text :: more, unfinished)

/-- The prompts shown while a text is entered, one for each of its lines. -/
def prompts (text : List Text.Glyph) : String :=
  prompt [] ++ String.join (List.replicate (text.count (.char '\n')) (prompt text))

/-- What is shown when the input ends inside the text `unfinished`. -/
def farewell (unfinished : List Text.Glyph) : String :=
  (if unfinished.isEmpty then "" else prompts unfinished) ++ prompt unfinished ++ "\n"

/-- The history entry of a text: its lines are joined by spaces. -/
def entry (text : List Text.Glyph) : List Text.Glyph :=
  text.map fun glyph => if glyph = .char '\n' then .char ' ' else glyph

/-- Answers a complete text and keeps it in the history, unless it is blank. -/
def accept (interpreter : Interpreter) (history : History) (text : List Text.Glyph) :
    StateM Machine (Reply × History) := do
  if (Text.trim text).isEmpty then return (⟨"", false⟩, history)
  else return (← handle interpreter text, history.add (entry text))

/-- Takes one more line behind the text `pending`.  A complete text is answered and kept; any other
one waits for the next line.  Gives the reply, the history and the text that is waiting then. -/
def takeLine (interpreter : Interpreter) (history : History) (pending line : List Text.Glyph) :
    StateM Machine (Reply × History × List Text.Glyph) := do
  let text := join pending line
  if incomplete (Text.characters text) then return (⟨"", false⟩, history, text)
  else
    let (reply, history) ← accept interpreter history text
    return (reply, history, [])

/-- A session behind the text `pending`, line by line: each line is asked for and taken, until one
of them ends the session or there are no more.  Gives what is shown and the history. -/
def converse (interpreter : Interpreter) (history : History) (pending : List Text.Glyph) :
    List (List Text.Glyph) → StateM Machine (String × History)
  | [] => return (prompt pending ++ "\n", history)
  | line :: rest => do
    let (reply, history, waiting) ← takeLine interpreter history pending line
    let shown := prompt pending ++ reply.output
    if reply.leaves then return (shown, history)
    else
      let (output, history) ← converse interpreter history waiting rest
      return (shown ++ output, history)

/-- Answers texts until one of them ends the session or there are no more; then `unfinished` is
dropped.  Gives what is shown and the history. -/
def answerTexts (interpreter : Interpreter) (unfinished : List Text.Glyph) (history : History) :
    List (List Text.Glyph) → StateM Machine (String × History)
  | [] => return (farewell unfinished, history)
  | text :: rest => do
    let (reply, history) ← accept interpreter history text
    let shown := prompts text ++ reply.output
    if reply.leaves then return (shown, history)
    else
      let (output, history) ← answerTexts interpreter unfinished history rest
      return (shown ++ output, history)

/-- A whole session on some lines of input: the texts that they make up are answered one after the
other.  That is what `converse` does line by line. -/
def session (interpreter : Interpreter) (history : History) (lines : List (List Text.Glyph)) :
    StateM Machine (String × History) := do
  let (complete, unfinished) := texts [] lines
  let (output, history) ← answerTexts interpreter unfinished history complete
  return (banner ++ "\n" ++ output, history)

end Repl

end MiniLisp
