import MiniLisp.Procedure

/-!
# Scopes

A scope binds names to values and hands every name it does not bind to its parent.  Scopes are kept
in the order of their creation, so a parent comes before its children.
-/

namespace MiniLisp

/-- The bindings of one scope; no name is bound twice. -/
abbrev Bindings := List (String × Datum)

namespace Bindings

/-- Binds a name, in place of its former binding if there is one. -/
def bind (name : String) (value : Datum) : Bindings → Bindings
  | [] => [(name, value)]
  | (bound, former) :: rest =>
    if bound = name then (name, value) :: rest else (bound, former) :: bind name value rest

/-- Binds several names in order, so that the last of two bindings of one name wins. -/
def bindAll (bindings : Bindings) (pairs : List (String × Datum)) : Bindings :=
  pairs.foldl (fun bindings (name, value) => bindings.bind name value) bindings

/-- The value bound to a name. -/
def value? (name : String) : Bindings → Option Datum
  | [] => none
  | (bound, value) :: rest => if bound = name then some value else value? name rest

@[simp] theorem value?_bind_self (name : String) (value : Datum) (bindings : Bindings) :
    (bindings.bind name value).value? name = some value := by
  induction bindings with
  | nil => simp [bind, value?]
  | cons head rest ih =>
    obtain ⟨bound, former⟩ := head
    by_cases same : bound = name <;> simp [bind, value?, same, ih]

theorem value?_bind_of_ne {name other : String} (different : name ≠ other) (value : Datum)
    (bindings : Bindings) : (bindings.bind name value).value? other = bindings.value? other := by
  induction bindings with
  | nil => simp [bind, value?, different]
  | cons head rest ih =>
    obtain ⟨bound, former⟩ := head
    by_cases same : bound = name
    · subst same
      simp [bind, value?, different]
    · simp [bind, value?, same, ih]

/-- The bindings of a root scope: the builtin functions under their names. -/
def library : Bindings :=
  Builtin.all.map fun builtin => (builtin.name, .function (.builtin builtin))

end Bindings

/-- One scope.  Its name is shown in traces. -/
structure Scope where
  name : String
  parent : Option ScopeId
  bindings : Bindings
  deriving Repr

/-- All scopes, in the order of their creation. -/
abbrev Scopes := Array Scope

namespace Scopes

/-- Resolves a name in a scope or, failing that, in its ancestors, visiting at most `steps`
scopes. -/
def resolveWithin (scopes : Scopes) (name : String) : (steps : Nat) → ScopeId → Option Datum
  | 0, _ => none
  | steps + 1, scope =>
    match scopes[scope]? with
    | none => none
    | some found =>
      match found.bindings.value? name with
      | some value => some value
      | none =>
        match found.parent with
        | some parent => resolveWithin scopes name steps parent
        | none => none

/-- Resolves a name in a scope or, failing that, in its ancestors.  Parents are older than their
children, so no chain is longer than the number of scopes up to its start. -/
def resolve (scopes : Scopes) (name : String) (scope : ScopeId) : Option Datum :=
  resolveWithin scopes name (scope + 1) scope

/-- Binds a name in one scope. -/
def bind (scopes : Scopes) (scope : ScopeId) (name : String) (value : Datum) : Scopes :=
  scopes.modify scope fun found => { found with bindings := found.bindings.bind name value }

/-- Binds several names in one scope, in order. -/
def bindAll (scopes : Scopes) (scope : ScopeId) (pairs : List (String × Datum)) : Scopes :=
  scopes.modify scope fun found => { found with bindings := found.bindings.bindAll pairs }

/-- The number of bindings that a scope itself holds. -/
def bindingCount (scopes : Scopes) (scope : ScopeId) : Nat :=
  match scopes[scope]? with
  | some found => found.bindings.length
  | none => 0

/-- The numbers of bindings of a scope and its ancestors, visiting at most `steps` scopes. -/
def bindingCountsWithin (scopes : Scopes) : (steps : Nat) → ScopeId → List Nat
  | 0, _ => []
  | steps + 1, scope =>
    match scopes[scope]? with
    | none => []
    | some found =>
      found.bindings.length ::
        match found.parent with
        | some parent => bindingCountsWithin scopes steps parent
        | none => []

/-- The numbers of bindings of a scope and its ancestors, from the inside out. -/
def bindingCounts (scopes : Scopes) (scope : ScopeId) : List Nat :=
  bindingCountsWithin scopes (scope + 1) scope

end Scopes

end MiniLisp
