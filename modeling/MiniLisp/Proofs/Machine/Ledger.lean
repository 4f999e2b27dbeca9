import MiniLisp.Proofs.Eval.Law

/-!
# A ledger of functions

Closures and functions of the host are told apart by their numbers.  A ledger has an entry for each
number: the parameters of the closure, or the name of the function of the host.  Numbers are given
in order and never again, so whatever runs, the ledger grows at its end and all functions are as it
has them.
-/

namespace MiniLisp

/-- What functions show of themselves: the parameters of closures and the names of functions of the
host, in the order of their numbers. -/
structure Ledger where
  params : List (List String)
  names : List String

/-- Every function that a function of the host holds has a property. -/
def HostAction.Every (property : Procedure → Prop) : HostAction → Prop
  | wrap target => target.Every property
  | const value => value.Every property
  | fail _ => True
  | interpret => True

theorem HostAction.Every.mono {property larger : Procedure → Prop}
    (included : ∀ callee, property callee → larger callee) {action : HostAction}
    (every : action.Every property) : action.Every larger := by
  cases action with
  | wrap target => exact Value.Every.mono included every
  | const value => exact Value.Every.mono included every
  | fail message => trivial
  | interpret => trivial

/-- A function that is older than a function of the host: where both are of the host, the number of
the older one is smaller. -/
def Procedure.Older (index : Nat) : Procedure → Prop
  | .host target _ => target < index
  | .builtin _ => True
  | .closure _ => True

/-- Functions of the host hold only older ones. -/
def Machine.Layered (machine : Machine) : Prop :=
  ∀ (index : Nat) action, machine.hosts[index]? = some action →
    action.Every (Procedure.Older index)

theorem Machine.Layered.of_eq {machine final : Machine} (layered : machine.Layered)
    (hosts : final.hosts = machine.hosts) : final.Layered := by
  rw [Machine.Layered, hosts]
  exact layered

section Scopes

variable {scopes : Scopes} {property : Procedure → Prop}
variable (every : ∀ (scope : ScopeId) found, scopes[scope]? = some found →
  found.bindings.Every property)

include every

/-- What every function bound in any scope has, those in the value of a name have. -/
theorem Scopes.every_of_resolve {name : String} {scope : ScopeId} {value : Datum}
    (resolved : scopes.resolve name scope = some value) : value.Every property := by
  unfold resolve at resolved
  generalize scope + 1 = steps at resolved
  induction steps generalizing scope with
  | zero => cases resolved
  | succ steps ih =>
    simp only [resolveWithin] at resolved
    split at resolved
    next => cases resolved
    next found present =>
      split at resolved
      next bound =>
        cases resolved
        exact (every scope found present).value? bound
      next =>
        split at resolved
        next outer linked => exact ih resolved
        next => cases resolved

theorem Scopes.every_push {added : Scope} (new : added.bindings.Every property) :
    ∀ (scope : ScopeId) found, (scopes.push added)[scope]? = some found →
      found.bindings.Every property := by
  intro scope found present
  rw [Array.getElem?_push] at present
  split at present
  · cases present
    exact new
  · exact every scope found present

theorem Scopes.every_bindAll (filled : ScopeId) {pairs : List (String × Datum)}
    (new : Bindings.Every property pairs) :
    ∀ (scope : ScopeId) found, (scopes.bindAll filled pairs)[scope]? = some found →
      found.bindings.Every property := by
  intro scope found present
  obtain ⟨former, present', -, same | same⟩ := Realm.getElem?_bindAll_cases present
  · rw [same]
    exact every scope former present'
  · rw [same]
    exact (every scope former present').bindAll new

end Scopes

namespace Ledger

variable {ledger middle later : Ledger}

/-- The later ledger has all entries of the earlier one. -/
structure Before (ledger later : Ledger) : Prop where
  params : ledger.params <+: later.params
  names : ledger.names <+: later.names

theorem Before.refl (ledger : Ledger) : ledger.Before ledger :=
  ⟨List.prefix_rfl, List.prefix_rfl⟩

theorem Before.trans (first : ledger.Before middle) (second : middle.Before later) :
    ledger.Before later :=
  ⟨first.params.trans second.params, first.names.trans second.names⟩

/-- A function is as the ledger has it. -/
def Lists (ledger : Ledger) : Procedure → Prop
  | .builtin _ => True
  | .closure closure => ledger.params[closure.identity]? = some closure.params
  | .host index name => ledger.names[index]? = some name

theorem getElem?_of_isPrefix {α : Type} {first whole : List α} (starts : first <+: whole)
    {index : Nat} {item : α} (present : first[index]? = some item) : whole[index]? = some item := by
  obtain ⟨rest, rfl⟩ := starts
  rw [List.getElem?_append_left (List.getElem?_eq_some_iff.mp present).1, present]

theorem Lists.mono (before : ledger.Before later) (procedure : Procedure)
    (lists : ledger.Lists procedure) : later.Lists procedure := by
  cases procedure with
  | builtin operation => trivial
  | closure closure => exact getElem?_of_isPrefix before.params lists
  | host index name => exact getElem?_of_isPrefix before.names lists

/-- Functions that are the same have one entry, and so one text. -/
theorem Lists.render_eq {left right : Procedure} (listed : ledger.Lists left)
    (listed' : ledger.Lists right) (alike : left.same right = true) :
    left.render = right.render := by
  cases left <;> cases right <;> simp only [Procedure.same, beq_iff_eq, reduceCtorEq] at alike
  case builtin.builtin => rw [alike]
  case closure.closure left right =>
    have one : ledger.params[left.identity]? = some left.params := listed
    have other : ledger.params[right.identity]? = some right.params := listed'
    rw [alike, other] at one
    simp only [Procedure.render, Option.some.inj one]
  case host.host left name right name' =>
    have one : ledger.names[left]? = some name := listed
    have other : ledger.names[right]? = some name' := listed'
    rw [alike, other] at one
    simp only [Procedure.render, Procedure.name, Option.some.inj one]

/-! ## Machines and their ledgers -/

/-- A ledger has an entry for each number that a machine has given, and the machine holds functions
only as they are listed. -/
structure Covers (ledger : Ledger) (machine : Machine) : Prop where
  closures : ledger.params.length = machine.closures
  hosts : ledger.names.length = machine.hosts.size
  bindings : ∀ (scope : ScopeId) found, machine.scopes[scope]? = some found →
    found.bindings.Every ledger.Lists
  actions : ∀ (index : Nat) action, machine.hosts[index]? = some action →
    action.Every ledger.Lists
  layered : machine.Layered

namespace Covers

variable {machine final : Machine}

theorem of_eq (covers : ledger.Covers machine) (scopes : final.scopes = machine.scopes)
    (hosts : final.hosts = machine.hosts) (closures : final.closures = machine.closures) :
    ledger.Covers final :=
  ⟨closures ▸ covers.closures, hosts ▸ covers.hosts, scopes ▸ covers.bindings,
    hosts ▸ covers.actions, covers.layered.of_eq hosts⟩

theorem pushScope (covers : ledger.Covers machine) {added : Scope}
    (every : added.bindings.Every ledger.Lists) :
    ledger.Covers { machine with scopes := machine.scopes.push added } :=
  ⟨covers.closures, covers.hosts, Scopes.every_push covers.bindings every, covers.actions,
    covers.layered⟩

theorem fillScope (covers : ledger.Covers machine) (scope : ScopeId)
    {pairs : List (String × Datum)} (every : Bindings.Every ledger.Lists pairs) :
    ledger.Covers { machine with scopes := machine.scopes.bindAll scope pairs } :=
  ⟨covers.closures, covers.hosts, Scopes.every_bindAll covers.bindings scope every, covers.actions,
    covers.layered⟩

/-- What is held stays as it is listed when entries are added. -/
theorem held_later (covers : ledger.Covers machine) (before : ledger.Before later) :
    (∀ (scope : ScopeId) found, machine.scopes[scope]? = some found →
      found.bindings.Every later.Lists) ∧
    ∀ (index : Nat) action, machine.hosts[index]? = some action → action.Every later.Lists :=
  ⟨fun scope found present => (covers.bindings scope found present).mono (Lists.mono before),
    fun index action present => (covers.actions index action present).mono (Lists.mono before)⟩

/-- A listed function is older than the next function of the host. -/
theorem older (covers : ledger.Covers machine) (procedure : Procedure)
    (listed : ledger.Lists procedure) : procedure.Older machine.hosts.size := by
  cases procedure with
  | builtin operation => trivial
  | closure closure => trivial
  | host index name => exact covers.hosts ▸ (List.getElem?_eq_some_iff.mp listed).1

end Covers

/-- The ledger with one more closure. -/
def addClosure (ledger : Ledger) (params : List String) : Ledger :=
  { ledger with params := ledger.params ++ [params] }

/-- The ledger with one more function of the host. -/
def addHost (ledger : Ledger) (name : String) : Ledger :=
  { ledger with names := ledger.names ++ [name] }

theorem before_addClosure (ledger : Ledger) (params : List String) :
    ledger.Before (ledger.addClosure params) :=
  ⟨List.prefix_append _ _, List.prefix_rfl⟩

theorem before_addHost (ledger : Ledger) (name : String) : ledger.Before (ledger.addHost name) :=
  ⟨List.prefix_rfl, List.prefix_append _ _⟩

/-! ## Runs -/

section Runs

variable {σ α β : Type} {covers : Ledger → σ → Prop}
variable {good : Ledger → α → Prop} {good' : Ledger → β → Prop}

/-- Wherever a ledger covers the state, a run only adds entries, and a value that it comes to is
good. -/
def Keeps (covers : Ledger → σ → Prop) (ledger : Ledger) (good : Ledger → α → Prop)
    (action : ExceptT Stop (StateM σ) α) : Prop :=
  ∀ state, covers ledger state → ∃ later, ledger.Before later ∧ covers later (action state).2 ∧
    ∀ value, (action state).1 = .ok value → good later value

theorem Keeps.pure {value : α} (holds : good ledger value) :
    Keeps covers ledger good (Pure.pure value) := by
  intro state covered
  refine ⟨ledger, .refl ledger, covered, ?_⟩
  rintro _ ⟨⟩
  exact holds

theorem Keeps.throw (stop : Stop) :
    Keeps covers ledger good (MonadExcept.throw stop : ExceptT Stop (StateM σ) α) :=
  fun _ covered => ⟨ledger, .refl ledger, covered, nofun⟩

theorem Keeps.bind {action : ExceptT Stop (StateM σ) α} {next : α → ExceptT Stop (StateM σ) β}
    (first : Keeps covers ledger good action)
    (continued : ∀ later value, ledger.Before later → good later value →
      Keeps covers later good' (next value)) : Keeps covers ledger good' (action >>= next) := by
  intro state covered
  obtain ⟨middle, before, covered, value⟩ := first state covered
  have unfolded : (action >>= next) state =
      ExceptT.bindCont next (action state).1 (action state).2 := rfl
  rw [unfolded]
  match came : action state with
  | (.ok result, between) =>
    rw [came] at covered value
    obtain ⟨later, before', covered', value'⟩ :=
      continued middle result before (value result rfl) between covered
    exact ⟨later, before.trans before', covered', value'⟩
  | (.error stop, between) =>
    rw [came] at covered
    exact ⟨middle, before, covered, nofun⟩

theorem Keeps.lift {outcome : Except Stop α}
    (holds : ∀ value, outcome = .ok value → good ledger value) :
    Keeps covers ledger good (liftM outcome : ExceptT Stop (StateM σ) α) := by
  cases outcome with
  | ok value => exact .pure (holds value rfl)
  | error stop => exact .throw stop

/-- A run may depend on the state that it finds. -/
theorem Keeps.inspect {next : σ → ExceptT Stop (StateM σ) α}
    (continued : ∀ state, covers ledger state → Keeps covers ledger good (next state)) :
    Keeps covers ledger good (get >>= next) :=
  fun state covered => continued state covered state covered

end Runs

/-- Nothing is asked of a result. -/
abbrev Any {α : Type} (_ : Ledger) (_ : α) : Prop := True

/-- The functions of a value are as they are listed. -/
abbrev Datum (ledger : Ledger) : MiniLisp.Datum → Prop :=
  Value.Every ledger.Lists

/-! ## Steps of the machine -/

theorem resolve_keeps (scope : ScopeId) (name : String) :
    Keeps Covers ledger Datum (Run.resolve scope name) := by
  apply Keeps.inspect
  intro machine covers
  cases resolved : machine.scopes.resolve name scope with
  | none => exact .throw _
  | some value => exact .pure (Scopes.every_of_resolve covers.bindings resolved)

theorem newScope_keeps (name : String) (parent : Option ScopeId) {bindings : Bindings}
    (every : bindings.Every ledger.Lists) :
    Keeps Covers ledger Any (Run.newScope name parent bindings) :=
  fun _ covers => ⟨ledger, .refl ledger, covers.pushScope every, fun _ _ => trivial⟩

theorem newRoot_keeps : Keeps Covers ledger Any Run.newRoot :=
  newScope_keeps "root" none (Bindings.every_library fun _ => trivial)

theorem newEngine_keeps (limit : Nat) (log : Option Nat) :
    Keeps Covers ledger Any (Run.newEngine limit log) :=
  fun _ covers => ⟨ledger, .refl ledger, covers.of_eq rfl rfl rfl, fun _ _ => trivial⟩

theorem newClosure_keeps (params : List String) (body : Form) (scope : Option ScopeId)
    (engine : Option EngineId) :
    Keeps Covers ledger Datum (Run.newClosure params body scope engine) := by
  intro machine covers
  have before := ledger.before_addClosure params
  obtain ⟨bindings, actions⟩ := covers.held_later before
  refine ⟨ledger.addClosure params, before,
    ⟨?_, covers.hosts, bindings, actions, covers.layered⟩, ?_⟩
  · simp [addClosure, Run.newClosure, covers.closures]
  · rintro _ ⟨⟩
    apply Value.every_function_iff.mpr
    simp [Lists, addClosure, ← covers.closures]

theorem setAll_keeps (scope : ScopeId) {pairs : List (String × MiniLisp.Datum)}
    (every : Bindings.Every ledger.Lists pairs) :
    Keeps Covers ledger Any (Run.setAll scope pairs) :=
  fun _ covers => ⟨ledger, .refl ledger, covers.fillScope scope every, fun _ _ => trivial⟩

theorem set_keeps (scope : ScopeId) (name : String) {value : MiniLisp.Datum}
    (holds : ledger.Datum value) : Keeps Covers ledger Any (Run.set scope name value) := by
  have every : Bindings.Every ledger.Lists [(name, value)] :=
    fun pair member => List.mem_singleton.mp member ▸ holds
  exact fun _ covers => ⟨ledger, .refl ledger, covers.fillScope scope every, fun _ _ => trivial⟩

/-- A host adds a function. -/
theorem newHost_keeps (name : String) {action : HostAction} (every : action.Every ledger.Lists) :
    Keeps Covers ledger Datum (modifyGet fun machine =>
      (.function (.host machine.hosts.size name),
        { machine with hosts := machine.hosts.push action }) : Run MiniLisp.Datum) := by
  intro machine covers
  have before := ledger.before_addHost name
  obtain ⟨bindings, actions⟩ := covers.held_later before
  refine ⟨ledger.addHost name, before, ⟨covers.closures, ?_, bindings, ?_, ?_⟩, ?_⟩
  · simp [addHost, covers.hosts]
  · intro index found present
    simp only [Run.modifyGet_apply, Array.getElem?_push] at present
    split at present
    · cases present
      exact every.mono (Lists.mono before)
    · exact actions index found present
  · intro index found present
    simp only [Run.modifyGet_apply, Array.getElem?_push] at present
    split at present
    next newest =>
      cases present
      rw [newest]
      exact every.mono covers.older
    next => exact covers.layered index found present
  · rintro _ ⟨⟩
    apply Value.every_function_iff.mpr
    simp [Lists, addHost, ← covers.hosts]

theorem record_keeps (engine : EngineId) (event : Machine → TraceEvent) :
    Keeps Covers ledger Any (Run.record engine event) := by
  intro machine covers
  refine ⟨ledger, .refl ledger, ?_, fun _ _ => trivial⟩
  simp only [Run.record, Run.modify_apply]
  cases (machine.engine engine).log with
  | none => exact covers
  | some log => exact covers.of_eq rfl rfl rfl

theorem Keeps.nested {α : Type} {good : Ledger → α → Prop} {action : Run α}
    (keeps : Keeps Covers ledger good action) (engine : EngineId) :
    Keeps Covers ledger good (Run.nested engine action) := by
  intro machine covers
  by_cases admitted : (machine.engine engine).depth < (machine.engine engine).limit
  · have entered : ledger.Covers (machine.enter engine) := covers.of_eq rfl rfl rfl
    obtain ⟨later, before, covers', value⟩ := keeps _ entered
    rw [Realm.nested_of_open admitted]
    exact ⟨later, before, covers'.of_eq rfl rfl rfl, value⟩
  · rw [Realm.nested_of_full admitted]
    exact ⟨ledger, .refl ledger, covers, nofun⟩

theorem Keeps.blame {α : Type} {good : Ledger → α → Prop} {action : Run α}
    (keeps : Keeps Covers ledger good action) (callee : String) :
    Keeps Covers ledger good (Run.blame callee action) := by
  intro machine covers
  obtain ⟨later, before, covers', value⟩ := keeps machine covers
  rw [Run.blame_eq]
  refine ⟨later, before, covers', fun result came => value result ?_⟩
  cases outcome : (action machine).1 with
  | ok value =>
    rw [outcome] at came
    exact came
  | error stop =>
    rw [outcome] at came
    cases came

/-! ## Evaluations and calls -/

section Calls

variable {inner : Evaluation} {arguments : List MiniLisp.Datum}

theorem interpretText_keeps
    (inside : ∀ ledger engine scope form, Keeps Covers ledger Datum (inner engine scope form)) :
    Keeps Covers ledger Datum (Eval.interpretText inner arguments) := by
  match arguments with
  | .text text :: rest =>
    have read : ∀ outcome : Except Stop Form,
        Keeps Covers ledger Any (liftM outcome : Run Form) :=
      fun _ => .lift fun _ _ => trivial
    apply (read _).bind
    intro later form _ _
    apply newRoot_keeps.bind
    intro later scope _ _
    apply (newEngine_keeps _ _).bind
    intro later engine _ _
    exact inside later engine scope form
  | [] | .nil :: _ | .int _ :: _ | .bool _ :: _ | .list _ :: _ | .function _ :: _ =>
    exact .throw _

theorem callHost_keeps
    (inside : ∀ ledger engine scope form, Keeps Covers ledger Datum (inner engine scope form))
    (builtins : ∀ operation, Keeps Covers ledger Datum (Eval.callBuiltin operation arguments))
    (closures : ∀ closure, ledger.Lists (.closure closure) →
      Keeps Covers ledger Datum (Eval.callClosure inner closure arguments))
    (steps index : Nat) (name : String) :
    Keeps Covers ledger Datum (Eval.callHost inner arguments steps index name) := by
  induction steps generalizing index name with
  | zero => exact .throw _
  | succ steps ih =>
    apply Keeps.inspect
    intro machine covers
    -- What is called is what the machine holds at this moment, so it is listed by now.
    have held := covers.actions index
    cases present : machine.hosts[index]? with
    | none => exact .throw _
    | some action =>
      have every := held action present
      cases action with
      | wrap target =>
        cases target with
        | function procedure =>
          cases procedure with
          | builtin operation => exact (builtins operation).blame name
          | closure closure =>
            exact (closures closure (Value.every_function_iff.mp every)).blame name
          | host wrapped label => exact (ih wrapped label).blame name
        | nil | int | text | bool | list => exact .throw _
      | fail message => exact (Keeps.throw _).blame name
      | const value => exact .pure every
      | interpret => exact (interpretText_keeps inside).blame name

end Calls

/-- Keeping a ledger is a logic of evaluation. -/
def logic : Eval.Logic Unit where
  World := Ledger
  Later := Before
  Scope _ _ := True
  Engine _ := True
  Function := Lists
  Holds ledger good action := Keeps Covers ledger good (action ())
  scope_later _ _ := trivial
  function_later before lists := lists.mono before
  function_builtin _ := trivial
  scope_of_closure _ _ := trivial
  pure := .pure
  fail fault := .throw (.fault fault)
  bind := .bind
  resolve name _ := resolve_keeps _ name
  record _ _ := record_keeps _ _
  newScope name _ every := newScope_keeps name _ every
  newClosure params body _ _ := newClosure_keeps params body _ _
  engineOf _ := by
    unfold Eval.engineOf
    split
    · exact .pure trivial
    · exact newEngine_keeps _ _
  fillScope name _ paired continued := by
    apply (newScope_keeps name _ Bindings.every_nil).bind
    intro opened fresh before _
    apply (paired opened before).bind
    intro bound pairs before' every
    apply (setAll_keeps fresh every).bind
    intro filled _ before'' _
    exact continued filled fresh ((before.trans before').trans before'') trivial
  callHost name inside builtins closures _ :=
    callHost_keeps (fun ledger engine scope form => inside ledger engine scope form trivial trivial)
      builtins closures _ _ name

/-- Evaluation keeps a ledger. -/
theorem eval_keeps (ledger : Ledger) (fuel : Nat) (engine : EngineId) (scope : ScopeId)
    (form : Form) : Keeps Covers ledger Datum (eval fuel engine scope form) := by
  induction fuel generalizing ledger engine scope form with
  | zero => exact .throw _
  | succ fuel ih =>
    cases form with
    | absent => exact .pure Value.every_nil
    | atom token value =>
      have holds : logic.Holds ledger logic.Datum fun _ => Eval.evalAtom scope value :=
        Eval.SilentLogic.evalAtom_holds trivial value
      exact Keeps.nested holds engine
    | list token label items =>
      have inside : logic.Inner fun _ => eval fuel :=
        fun ledger engine scope form _ _ => ih ledger engine scope form
      have holds : logic.Holds ledger logic.Datum fun _ =>
          Eval.evalList (eval fuel) engine scope items :=
        Eval.Logic.evalList_holds inside trivial trivial items
      exact Keeps.nested holds engine

/-- Calls keep a ledger. -/
theorem call_keeps (fuel : Nat) {procedure : Procedure} {arguments : List MiniLisp.Datum}
    (known : ledger.Lists procedure) (every : ∀ argument ∈ arguments, ledger.Datum argument) :
    Keeps Covers ledger Datum (call fuel procedure arguments) := by
  have inside : logic.Inner fun _ => eval fuel :=
    fun ledger engine scope form _ _ => eval_keeps ledger fuel engine scope form
  exact Eval.SilentLogic.call_holds inside known every

/-- Interpreters keep a ledger. -/
theorem evaluate_keeps (interpreter : Interpreter) (form : Form) (scope : Option ScopeId) :
    Keeps Covers ledger Datum (interpreter.evaluate form scope) := by
  have started : Keeps Covers ledger Any (Interpreter.startingScope scope) := by
    cases scope with
    | none => exact newRoot_keeps
    | some given => exact .pure trivial
  apply started.bind
  intro rooted start _ _
  apply (newEngine_keeps _ _).bind
  intro ready engine _ _
  exact .inspect fun machine _ => eval_keeps ready machine.fuel engine start form

end Ledger

end MiniLisp
