import MiniLisp.Interpreter
import MiniLisp.Text.Decimal

/-!
# Workspaces

A workspace is what a host holds of a running program: scopes, values, forms and interpreters under
names of its own, over one machine.  The host builds values and forms, binds names, evaluates, calls
functions and extends lists that it holds.
-/

namespace MiniLisp

/-- Named things; a name stands for one thing. -/
abbrev Table (α : Type) := List (String × α)

namespace Table

variable {α : Type}

/-- What a name stands for. -/
def get? (table : Table α) (name : String) : Option α :=
  List.lookup name table

/-- Gives a name to a thing. -/
def insert (table : Table α) (name : String) (thing : α) : Table α :=
  (name, thing) :: table.filter fun (other, _) => other != name

/-- Gives a name to a thing if there is a name. -/
def insert? (table : Table α) (name : Option String) (thing : α) : Table α :=
  match name with
  | some name => table.insert name thing
  | none => table

end Table

/-- A value as a host describes it. -/
inductive ValueSpec where
  | nil
  | bool (value : Bool)
  | int (value : Int64)
  | text (value : String)
  /-- A fraction, which the language does not have. -/
  | fraction (value : Text.Decimal)
  | list (items : List ValueSpec)
  /-- A stored value. -/
  | stored (name : String)
  | builtin (operation : Builtin)
  deriving Repr, Inhabited

/-- A form as a host describes it. -/
inductive FormSpec where
  | absent
  | atom (value : Atom)
  | list (items : List FormSpec)
  /-- A stored form, shared with everyone else who holds it. -/
  | stored (name : String)
  /-- The single form of a program text. -/
  | source (text : List Char)
  deriving Repr, Inhabited

/-- What a host holds of a running program. -/
structure Workspace where
  machine : Machine
  scopes : Table ScopeId
  values : Table Datum
  forms : Table Form
  interpreters : Table Interpreter
  /-- The number of labels given to lists so far. -/
  labels : Nat
  /-- The number of logs in use. -/
  logs : Nat
  deriving Repr

/-- A computation of the host.  It may stop early, and the workspace keeps what was done until
then. -/
abbrev Hosted := ExceptT Stop (StateM Workspace)

namespace Workspace

/-- A workspace that holds nothing. -/
def empty : Workspace :=
  ⟨Machine.empty, [], [], [], [], 0, 0⟩

/-- Runs a computation on the machine of the workspace. -/
def onMachine {α : Type} (action : Run α) : Hosted α := fun workspace =>
  let machine := workspace.machine
  let workspace := { workspace with machine := Machine.empty }
  match action machine with
  | (result, machine) => (result, { workspace with machine := machine })

/-- The thing that a name stands for. -/
def stored {α : Type} (table : Workspace → Table α) (name : String) : Hosted α := do
  match (table (← get)).get? name with
  | some thing => return thing
  | none => throw (.misuse .unknownName)

/-- The thing that an optional name stands for. -/
def stored? {α : Type} (table : Workspace → Table α) (name : Option String) : Hosted (Option α) :=
  match name with
  | some name => return some (← stored table name)
  | none => return none

/-! ## Building values and forms -/

mutual

/-- The value that a description stands for; a description with a fraction stands for none. -/
def build (values : Table Datum) : ValueSpec → Except Stop Datum
  | .nil => .ok .nil
  | .bool value => .ok (.bool value)
  | .int value => .ok (.int value)
  | .text value => .ok (.text value)
  | .fraction value => .error (.fault (.invalidValue value.render))
  | .list items => return .list (← buildItems values items)
  | .stored name =>
    match values.get? name with
    | some value => .ok value
    | none => .error (.misuse .unknownName)
  | .builtin operation => .ok (.function (.builtin operation))

/-- The values of several descriptions. -/
def buildItems (values : Table Datum) : List ValueSpec → Except Stop (List Datum)
  | [] => .ok []
  | first :: rest => return (← build values first) :: (← buildItems values rest)

end

mutual

/-- The form that a description stands for. -/
def assemble (forms : Table Form) : FormSpec → Except Stop Form
  | .absent => .ok .absent
  | .atom value => .ok (.atom none value)
  | .list items => return .list none none (← assembleItems forms items)
  | .stored name =>
    match forms.get? name with
    | some form => .ok form
    | none => .error (.misuse .unknownName)
  | .source text => Form.parse text

/-- The forms of several descriptions. -/
def assembleItems (forms : Table Form) : List FormSpec → Except Stop (List Form)
  | [] => .ok []
  | first :: rest => return (← assemble forms first) :: (← assembleItems forms rest)

end

/-- The value that a description stands for. -/
def value (spec : ValueSpec) : Hosted Datum := do
  liftM (build (← get).values spec)

/-- The form that a description stands for. -/
def form (spec : FormSpec) : Hosted Form := do
  liftM (assemble (← get).forms spec)

/-- Stores a value under a name, if there is one. -/
def keepValue (name : Option String) (value : Datum) : Hosted Unit :=
  modify fun workspace => { workspace with values := workspace.values.insert? name value }

/-- A form that can be extended later: a list gets a label unless it has one. -/
def labelled : Form → Hosted Form
  | .list token none items =>
    modifyGet fun workspace =>
      (.list token (some workspace.labels) items, { workspace with labels := workspace.labels + 1 })
  | form => return form

/-- Stores a form under a name, if there is one. -/
def keepForm (name : Option String) (form : Form) : Hosted Unit :=
  modify fun workspace => { workspace with forms := workspace.forms.insert? name form }

/-- Builds a value and stores it. -/
def newValue (name : Option String) (spec : ValueSpec) : Hosted Datum := do
  let value ← value spec
  keepValue name value
  return value

/-- Builds a form and stores it. -/
def newForm (name : Option String) (spec : FormSpec) : Hosted Form := do
  let form ← labelled (← form spec)
  keepForm name form
  return form

/-! ## Scopes -/

/-- Stores a scope under a name, if there is one. -/
def keepScope (name : Option String) (scope : ScopeId) : Hosted Unit :=
  modify fun workspace => { workspace with scopes := workspace.scopes.insert? name scope }

/-- The number of bindings that a scope itself holds. -/
def bindingCount (scope : ScopeId) : Hosted Nat := do
  return (← get).machine.scopes.bindingCount scope

/-- Creates a root scope; gives the number of its bindings. -/
def newRoot (name : Option String) : Hosted Nat := do
  let scope ← onMachine Run.newRoot
  keepScope name scope
  bindingCount scope

/-- Creates a scope with a label for traces below a stored one; gives the number of its bindings. -/
def newScope (name parent : Option String) (label : String) : Hosted Nat := do
  let parent ← stored? Workspace.scopes parent
  let scope ← onMachine (Run.newScope label parent [])
  keepScope name scope
  bindingCount scope

/-- Binds a name in a stored scope; gives the number of bindings afterwards. -/
def bind (scope name : String) (spec : ValueSpec) : Hosted Nat := do
  let scope ← stored Workspace.scopes scope
  let value ← value spec
  onMachine (Run.set scope name value)
  bindingCount scope

/-- Resolves a name in a stored scope and stores the value. -/
def resolve (keep : Option String) (scope name : String) : Hosted Datum := do
  let scope ← stored Workspace.scopes scope
  let value ← onMachine (Run.resolve scope name)
  keepValue keep value
  return value

/-- The numbers of bindings of a stored scope and its ancestors. -/
def chain (scope : String) : Hosted (List Nat) := do
  let scope ← stored Workspace.scopes scope
  return (← get).machine.scopes.bindingCounts scope

/-! ## Interpreters -/

/-- Creates an interpreter, with a log of its own if it is traced. -/
def newInterpreter (name : Option String) (maxDepth : Int) (traced : Bool) : Hosted Unit :=
  modify fun workspace =>
    let log := if traced then some workspace.logs else none
    { workspace with
      interpreters := workspace.interpreters.insert? name ⟨maxDepth, log⟩
      logs := workspace.logs + 1 }

/-- Takes the entries out of the log of a stored interpreter. -/
def takeTrace (interpreter : String) : Hosted (List TraceEntry) := do
  let interpreter ← stored Workspace.interpreters interpreter
  modifyGet fun workspace =>
    let own (entry : TraceEntry) : Bool := interpreter.log == some entry.log
    let trace := workspace.machine.trace
    (trace.toList.filter own,
      { workspace with
        machine := { workspace.machine with trace := trace.filter fun entry => !own entry } })

/-- Evaluates a form in a stored scope, or in a fresh root scope, and stores the value. -/
def evaluate (keep interpreter scope : Option String) (spec : FormSpec) : Hosted Datum := do
  let interpreter := (← stored? Workspace.interpreters interpreter).getD {}
  let scope ← stored? Workspace.scopes scope
  let form ← form spec
  let value ← onMachine (interpreter.evaluate form scope)
  keepValue keep value
  return value

/-! ## Functions -/

/-- Calls a function and stores the value.  Only functions can be called. -/
def call (keep : Option String) (function : ValueSpec) (arguments : List ValueSpec) :
    Hosted Datum := do
  let function ← value function
  let arguments ← arguments.mapM value
  match function with
  | .function procedure =>
    let fuel := (← get).machine.fuel
    let value ← onMachine (MiniLisp.call fuel procedure arguments)
    keepValue keep value
    return value
  | _ => throw (.misuse .notCallable)

/-- Assembles a closure without an engine and stores it. -/
def newClosure (keep : Option String) (params : List String) (body : FormSpec)
    (scope : Option String) : Hosted Datum := do
  let scope ← stored? Workspace.scopes scope
  let body ← form body
  let value ← onMachine (Run.newClosure params body scope none)
  keepValue keep value
  return value

/-- Adds a function of the host and stores it. -/
def newHost (keep : Option String) (name : String) (action : HostAction) : Hosted Datum := do
  let value : Datum ← onMachine (modifyGet fun machine =>
    (.function (.host machine.hosts.size name),
      { machine with hosts := machine.hosts.push action }))
  keepValue keep value
  return value

/-! ## Extending forms -/

/-- What a function of the host does after a form was added to every list with a label. -/
def extendAction (label : Nat) (item : Form) : HostAction → HostAction
  | .wrap target => .wrap (target.extend label item)
  | .const value => .const (value.extend label item)
  | action => action

/-- The machine after a form was added to every list with a label. -/
def extendMachine (label : Nat) (item : Form) (machine : Machine) : Machine :=
  { machine with
    scopes := machine.scopes.map fun scope =>
      { scope with
        bindings := scope.bindings.map fun (name, value) => (name, value.extend label item) }
    hosts := machine.hosts.map (extendAction label item) }

/-- The workspace after a form was added to every list with a label, wherever it is held. -/
def extend (label : Nat) (item : Form) (workspace : Workspace) : Workspace :=
  { workspace with
    machine := extendMachine label item workspace.machine
    values := workspace.values.map fun (name, value) => (name, value.extend label item)
    forms := workspace.forms.map fun (name, form) => (name, Form.extend label item form) }

/-- Adds a form at the end of a stored list, for everyone who holds that list; gives the list. -/
def push (target : String) (item : Form) : Hosted Form := do
  match ← stored Workspace.forms target with
  | .absent => throw (.misuse .absentForm)
  | .list _ (some label) _ =>
    modify (extend label item)
    stored Workspace.forms target
  | _ => throw (.fault .notAList)

/-- Adds a form that is described. -/
def pushForm (target : String) (spec : FormSpec) : Hosted Form := do
  push target (← form spec)

/-- Adds a new form and stores it under a name. -/
def pushNew (keep : Option String) (target : String) (spec : FormSpec) : Hosted Form := do
  let item ← labelled (← form spec)
  let extended ← push target item
  keepForm keep item
  return extended

end Workspace

end MiniLisp
