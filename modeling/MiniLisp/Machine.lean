import MiniLisp.Scope
import MiniLisp.Trace

/-!
# The machine

The state of a running program: its scopes, its engines, the functions of its host and the trace.
An engine counts the evaluations that are going on inside one another and bounds their number.
-/

namespace MiniLisp

/-- A counter of nested evaluations with its limit, and the log it writes to if it is traced. -/
structure Engine where
  limit : Nat
  depth : Nat
  log : Option Nat
  deriving Repr, Inhabited

/-- What a function of the host does. -/
inductive HostAction where
  /-- Calls another function. -/
  | wrap (target : Datum)
  /-- Fails with a message. -/
  | fail (message : String)
  /-- Returns a value. -/
  | const (value : Datum)
  /-- Evaluates the text it is given as a program of its own. -/
  | interpret
  deriving Repr

/-- The state of a running program. -/
structure Machine where
  scopes : Scopes
  engines : Array Engine
  hosts : Array HostAction
  /-- The number of closures made so far. -/
  closures : Nat
  trace : Array TraceEntry
  deriving Repr

namespace Machine

/-- A machine on which nothing has run. -/
def empty : Machine :=
  ⟨#[], #[], #[], 0, #[]⟩

/-- An engine.  One that does not exist admits no evaluation. -/
def engine (machine : Machine) (engine : EngineId) : Engine :=
  machine.engines.getD engine ⟨0, 0, none⟩

/-- The machine when one more evaluation begins in an engine. -/
def enter (machine : Machine) (engine : EngineId) : Machine :=
  { machine with
    engines := machine.engines.modify engine fun found => { found with depth := found.depth + 1 } }

/-- The machine when an evaluation in an engine is over. -/
def leave (machine : Machine) (engine : EngineId) : Machine :=
  { machine with
    engines := machine.engines.modify engine fun found => { found with depth := found.depth - 1 } }

/-- The number of evaluations that the engines together still admit. -/
def headroom (machine : Machine) : Nat :=
  machine.engines.foldl (fun total engine => total + (engine.limit - engine.depth)) 0

end Machine

/-- A computation on the machine.  It may stop early, and the machine keeps what was done until
then. -/
abbrev Run := ExceptT Stop (StateM Machine)

namespace Run

variable {α β : Type}

@[simp] theorem pure_apply (value : α) (machine : Machine) :
    (pure value : Run α) machine = (.ok value, machine) := rfl

@[simp] theorem throw_apply (stop : Stop) (machine : Machine) :
    (throw stop : Run α) machine = (.error stop, machine) := rfl

@[simp] theorem get_apply (machine : Machine) :
    (get : Run Machine) machine = (.ok machine, machine) := rfl

@[simp] theorem modify_apply (change : Machine → Machine) (machine : Machine) :
    (modify change : Run Unit) machine = (.ok (), change machine) := rfl

@[simp] theorem modifyGet_apply (change : Machine → α × Machine) (machine : Machine) :
    (modifyGet change : Run α) machine = (.ok (change machine).1, (change machine).2) := rfl

/-- A computation goes on only where the one before it came to a value. -/
theorem bind_apply (action : Run α) (next : α → Run β) (machine : Machine) :
    (action >>= next) machine =
      match action machine with
      | (.ok value, final) => next value final
      | (.error stop, final) => (.error stop, final) := by
  change ExceptT.bindCont next (action machine).1 (action machine).2 = _
  rcases action machine with ⟨_ | _, _⟩ <;> rfl

theorem bind_apply_of_ok {action : Run α} {machine final : Machine} {value : α}
    (done : action machine = (.ok value, final)) (next : α → Run β) :
    (action >>= next) machine = next value final := by
  simp [bind_apply, done]

theorem bind_apply_of_error {action : Run α} {machine final : Machine} {stop : Stop}
    (failed : action machine = (.error stop, final)) (next : α → Run β) :
    (action >>= next) machine = (.error stop, final) := by
  simp [bind_apply, failed]

/-- Fails with a fault. -/
def fail (fault : Fault) : Run α :=
  throw (.fault fault)

/-- Creates a scope. -/
def newScope (name : String) (parent : Option ScopeId) (bindings : Bindings) : Run ScopeId :=
  modifyGet fun machine =>
    (machine.scopes.size, { machine with scopes := machine.scopes.push ⟨name, parent, bindings⟩ })

/-- Creates a scope without parent that holds the builtin functions. -/
def newRoot : Run ScopeId :=
  newScope "root" none Bindings.library

/-- Binds a name in a scope. -/
def set (scope : ScopeId) (name : String) (value : Datum) : Run Unit :=
  modify fun machine => { machine with scopes := machine.scopes.bind scope name value }

/-- Binds several names in a scope, in order. -/
def setAll (scope : ScopeId) (pairs : List (String × Datum)) : Run Unit :=
  modify fun machine => { machine with scopes := machine.scopes.bindAll scope pairs }

/-- Resolves a name in a scope. -/
def resolve (scope : ScopeId) (name : String) : Run Datum := do
  match (← get).scopes.resolve name scope with
  | some value => return value
  | none => fail (.unbound name)

/-- Creates an engine in which no evaluation is going on. -/
def newEngine (limit : Nat) (log : Option Nat) : Run EngineId :=
  modifyGet fun machine =>
    (machine.engines.size, { machine with engines := machine.engines.push ⟨limit, 0, log⟩ })

/-- Makes a closure that differs from all others. -/
def newClosure (params : List String) (body : Form) (scope : Option ScopeId)
    (engine : Option EngineId) : Run Datum :=
  modifyGet fun machine =>
    (.function (.closure ⟨machine.closures, params, body, scope, engine⟩),
      { machine with closures := machine.closures + 1 })

/-- Records an event at the current depth of an engine, if that engine is traced. -/
def record (engine : EngineId) (event : Machine → TraceEvent) : Run Unit :=
  modify fun machine =>
    let found := machine.engine engine
    match found.log with
    | some log =>
      { machine with trace := machine.trace.push ⟨log, found.depth, event machine⟩ }
    | none => machine

/-- Runs an evaluation one level deeper in an engine, if its limit admits one more.  However the
evaluation ends, the depth is afterwards what it was before. -/
def nested (engine : EngineId) (action : Run α) : Run α := fun machine =>
  let found := machine.engine engine
  if found.depth < found.limit then
    match action (machine.enter engine) with
    | (result, final) => (result, final.leave engine)
  else (.error (.fault (.tooDeep found.limit)), machine)

/-- Reports every fault of a computation as the fault of a call. -/
def blame (callee : String) (action : Run α) : Run α := fun machine =>
  match action machine with
  | (.error (.fault cause), final) => (.error (.fault (.application callee cause)), final)
  | outcome => outcome

end Run

end MiniLisp
