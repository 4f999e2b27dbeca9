import MiniLisp.Text.Integer
import MiniLisp.Text.Quoted
import MiniLisp.Eval

/-!
# Flags

The arguments of the command start with flags.  A flag is written with one or two dashes; its value
follows an equals sign or is the next argument, except that a switch needs none.  Flags end in front
of the first other argument or behind a lone pair of dashes.
-/

namespace MiniLisp.CommandLine

/-- The flags of the command. -/
inductive Flag where
  | expression
  | history
  | maxDepth
  | trace
  deriving DecidableEq, Repr

namespace Flag

/-- The name of a flag. -/
def name : Flag → String
  | expression => "e"
  | history => "history"
  | maxDepth => "max-depth"
  | trace => "trace"

/-- The kind of value that a flag takes; a switch takes none. -/
def valueKind : Flag → Option String
  | expression | history => some "string"
  | maxDepth => some "int"
  | trace => none

/-- What a flag is for. -/
def purpose : Flag → String
  | expression => "evaluate expression and exit"
  | history => "history file (default $HOME/.lisp_history)"
  | maxDepth => s!"maximum number of nested evaluations (default {defaultLimit})"
  | trace => "log every special form and application to stderr"

/-- All flags, sorted by name. -/
def all : List Flag := [expression, history, maxDepth, trace]

/-- The flag with a name. -/
def ofName? (name : String) : Option Flag :=
  all.find? fun flag => flag.name == name

/-- The description of a flag. -/
def describe (flag : Flag) : String :=
  let kind := match flag.valueKind with
    | some kind => " " ++ kind
    | none => ""
  "  -" ++ flag.name ++ kind ++ "\n    \t" ++ flag.purpose ++ "\n"

end Flag

/-- The explanation of the command. -/
def usage : String :=
  "Usage:\n" ++
  "  lisp [flags]            Start the REPL.\n" ++
  "  lisp [flags] file ...   Run scripts.\n" ++
  "  lisp -e expr            Evaluate expr.\n\n" ++
  "Flags:\n" ++ String.join (Flag.all.map Flag.describe)

/-- What the arguments ask for. -/
structure Settings where
  expression : String := ""
  history : String := ""
  maxDepth : Int := defaultLimit
  trace : Bool := false
  deriving DecidableEq, Repr

/-- Why arguments cannot be understood. -/
inductive FlagFault where
  | badShape (argument : String)
  | undefined (name : String)
  | missingValue (flag : Flag)
  | badSwitch (flag : Flag) (value : String)
  | badInteger (flag : Flag) (value : String) (fault : Text.IntegerFault)
  deriving DecidableEq, Repr

/-- The words in which the fault is reported. -/
def FlagFault.message : FlagFault → String
  | badShape argument => s!"bad flag syntax: {argument}"
  | undefined name => s!"flag provided but not defined: -{name}"
  | missingValue flag => s!"flag needs an argument: -{flag.name}"
  | badSwitch flag value =>
    s!"invalid boolean value {Text.quoted value} for -{flag.name}: parse error"
  | badInteger flag value fault =>
    s!"invalid value {Text.quoted value} for flag -{flag.name}: {fault.message}"

/-- The outcome of reading the arguments. -/
inductive Arguments where
  | settings (chosen : Settings) (operands : List String)
  | help
  | fault (reason : FlagFault)
  deriving DecidableEq, Repr

/-- The spellings of the two positions of a switch. -/
def switch? (value : String) : Option Bool :=
  if ["1", "t", "T", "TRUE", "true", "True"].contains value then some true
  else if ["0", "f", "F", "FALSE", "false", "False"].contains value then some false
  else none

namespace Settings

/-- The settings with the value of a flag. -/
def set (settings : Settings) (flag : Flag) (value : String) : Except FlagFault Settings :=
  match flag with
  | .expression => .ok { settings with expression := value }
  | .history => .ok { settings with history := value }
  | .maxDepth =>
    match Text.integer value with
    | .ok depth => .ok { settings with maxDepth := depth }
    | .error fault => .error (.badInteger flag value fault)
  | .trace =>
    match switch? value with
    | some on => .ok { settings with trace := on }
    | none => .error (.badSwitch flag value)

end Settings

/-- A flag as it is written: its name, and its value if an equals sign follows. -/
structure Written where
  name : String
  value : Option String
  deriving DecidableEq, Repr

/-- Cuts a flag at its first equals sign, which cannot be its first character. -/
def Written.ofText (text : List Char) : Written :=
  match text with
  | [] => ⟨"", none⟩
  | first :: rest =>
    let name := rest.takeWhile fun character => character != '='
    match rest.drop name.length with
    | [] => ⟨String.ofList text, none⟩
    | _ :: value => ⟨String.ofList (first :: name), some (String.ofList value)⟩

/-- What an argument in the place of a flag is. -/
inductive Shape where
  /-- Something else than a flag. -/
  | operand
  /-- The lone pair of dashes behind the flags. -/
  | terminator
  /-- Dashes without a name behind them. -/
  | nameless
  | flag (written : Written)
  deriving DecidableEq, Repr

/-- The text of a flag behind its dashes. -/
def Shape.ofName (text : List Char) : Shape :=
  match text with
  | [] => .nameless
  | first :: _ =>
    if first = '-' ∨ first = '=' then .nameless else .flag (Written.ofText text)

/-- The shape of an argument. -/
def Shape.ofArgument (argument : String) : Shape :=
  match argument.toList with
  | ['-', '-'] => .terminator
  | '-' :: '-' :: text => .ofName text
  | '-' :: first :: rest => .ofName (first :: rest)
  | _ => .operand

/-- Goes on with new settings, unless they are at fault. -/
def Arguments.proceed (settings : Except FlagFault Settings) (next : Settings → Arguments) :
    Arguments :=
  match settings with
  | .ok settings => next settings
  | .error reason => .fault reason

/-- Reads the arguments behind those that made up `settings`. -/
def Arguments.parse (settings : Settings) : List String → Arguments
  | [] => .settings settings []
  | argument :: rest =>
    match Shape.ofArgument argument with
    | .operand => .settings settings (argument :: rest)
    | .terminator => .settings settings rest
    | .nameless => .fault (.badShape argument)
    | .flag written =>
      match Flag.ofName? written.name with
      | none =>
        if written.name = "help" ∨ written.name = "h" then .help
        else .fault (.undefined written.name)
      | some flag =>
        match written.value, flag.valueKind, rest with
        | some value, _, rest => proceed (settings.set flag value) (parse · rest)
        | none, none, rest => proceed (settings.set flag "true") (parse · rest)
        | none, some _, value :: rest => proceed (settings.set flag value) (parse · rest)
        | none, some _, [] => .fault (.missingValue flag)

end MiniLisp.CommandLine
