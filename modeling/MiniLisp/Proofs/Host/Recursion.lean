import MiniLisp.Proofs.Eval.Exhaustion
import MiniLisp.Proofs.Host.Ledger

/-!
# Recursion of closures that a host builds

A closure that a program makes runs in the engine of that program, and the depth of this engine
bounds all calls that such closures make.  A closure that a host builds has no engine and starts
a new one with each call, whose depth begins at zero again.  A call of such a closure comes back as
long as the number of engines that are started on the way is bounded; in particular it does where no
other function can start one.  A closure without an engine that calls itself never comes back.
-/

namespace MiniLisp

/-! ## Functions that start no engine -/

/-- A function that brings its engine with it, if it needs one at all. -/
def Procedure.Engined : Procedure → Prop
  | .builtin _ => True
  | .closure lambda => lambda.engine.isSome = true
  | .host _ _ => False

/-- All functions that are bound in scopes bring their engines with them. -/
def Machine.Engined (machine : Machine) : Prop :=
  ∀ (scope : ScopeId) found, machine.scopes[scope]? = some found →
    found.bindings.Every Procedure.Engined

/-- What a run does that meets only such functions: it starts no engine, it makes no others, and it
does not misuse the functions of the host. -/
structure Steady {α : Type} (good : α → Prop) (machine : Machine)
    (outcome : Except Stop α × Machine) : Prop where
  engined : outcome.2.Engined
  engines : outcome.2.engines.size = machine.engines.size
  value : ∀ value, outcome.1 = .ok value → good value
  stop : ∀ reason, outcome.1 ≠ .error (.misuse reason)

theorem Steady.error {α : Type} {good : α → Prop} {machine final : Machine} {stop : Stop}
    (engined : final.Engined) (engines : final.engines.size = machine.engines.size)
    (fair : ∀ reason, stop ≠ .misuse reason) : Steady good machine (.error stop, final) :=
  ⟨engined, engines, nofun, fun reason same => fair reason (Except.error.inj same)⟩

/-- A run is steady wherever all functions bring their engines with them. -/
def Steadily {α : Type} (good : α → Prop) (action : Run α) : Prop :=
  ∀ machine, machine.Engined → Steady good machine (action machine)

namespace Steadily

variable {α β : Type} {good : α → Prop} {good' : β → Prop}

theorem pure {value : α} (fine : good value) : Steadily good (Pure.pure value) :=
  fun _ engined => ⟨engined, rfl, fun _ same => Except.ok.inj same ▸ fine, nofun⟩

theorem fail (fault : Fault) : Steadily good (Run.fail fault) :=
  fun _ engined => .error engined rfl nofun

theorem exhausted : Steadily good (MonadExcept.throw .exhausted) :=
  fun _ engined => .error engined rfl nofun

/-- A change to the machine that starts no engine and binds nothing but such functions. -/
theorem modifyGet {change : Machine → α × Machine} (fine : ∀ machine, good (change machine).1)
    (engined : ∀ machine : Machine, machine.Engined → (change machine).2.Engined)
    (engines : ∀ machine, (change machine).2.engines.size = machine.engines.size) :
    Steadily good (MonadStateOf.modifyGet change) :=
  fun machine before => ⟨engined machine before, engines machine,
    fun _ same => Except.ok.inj same ▸ fine machine, nofun⟩

theorem bind {action : Run α} {next : α → Run β} (first : Steadily good action)
    (continued : ∀ value, good value → Steadily good' (next value)) :
    Steadily good' (action >>= next) := by
  intro machine engined
  have steady := first machine engined
  rcases came : action machine with ⟨stop | value, middle⟩
  · rw [came] at steady
    rw [Run.bind_apply_of_error came]
    apply Steady.error steady.engined steady.engines
    intro reason same
    exact steady.stop reason (congrArg Except.error same)
  · rw [came] at steady
    have rest := continued value (steady.value value rfl) middle steady.engined
    rw [Run.bind_apply_of_ok came]
    exact ⟨rest.engined, rest.engines.trans steady.engines, rest.value, rest.stop⟩

theorem resolve (scope : ScopeId) (name : String) :
    Steadily (Value.Every Procedure.Engined) (Run.resolve scope name) := by
  intro machine engined
  rw [Run.resolve, Run.bind_apply_of_ok (Run.get_apply machine)]
  cases resolved : machine.scopes.resolve name scope with
  | none => exact fail _ machine engined
  | some value => exact pure (Scopes.every_of_resolve engined resolved) machine engined

theorem newScope (name : String) (parent : Option ScopeId) {bindings : Bindings}
    (every : bindings.Every Procedure.Engined) :
    Steadily (fun _ => True) (Run.newScope name parent bindings) :=
  modifyGet (fun _ => trivial) (fun _ engined => Scopes.every_push engined every) fun _ => rfl

theorem setAll (scope : ScopeId) {pairs : List (String × Datum)}
    (every : Bindings.Every Procedure.Engined pairs) :
    Steadily (fun _ => True) (Run.setAll scope pairs) :=
  modifyGet (fun _ => trivial) (fun _ engined => Scopes.every_bindAll engined scope every)
    fun _ => rfl

theorem newClosure (params : List String) (body : Form) (scope : Option ScopeId)
    (engine : EngineId) :
    Steadily (Value.Every Procedure.Engined) (Run.newClosure params body scope (some engine)) :=
  modifyGet (fun _ => Value.every_function_iff.mpr rfl) (fun _ engined => engined) fun _ => rfl

theorem record (engine : EngineId) (event : Machine → TraceEvent) :
    Steadily (fun _ => True) (Run.record engine event) := by
  apply modifyGet fun _ => trivial
  · intro machine engined
    simp only
    cases (machine.engine engine).log <;> exact engined
  · intro machine
    simp only
    cases (machine.engine engine).log <;> rfl

theorem nested {action : Run α} (inside : Steadily good action) (engine : EngineId) :
    Steadily good (Run.nested engine action) := by
  intro machine engined
  by_cases admitted : (machine.engine engine).depth < (machine.engine engine).limit
  · obtain ⟨engined', engines, value, stop⟩ := inside (machine.enter engine) engined
    rw [Realm.nested_of_open admitted]
    refine ⟨engined', ?_, value, stop⟩
    simpa [Machine.enter, Machine.leave] using engines
  · rw [Realm.nested_of_full admitted]
    exact fail _ machine engined

/-- Starting no engine is a logic of evaluation, in which closures are known to have engines. -/
def logic : Eval.Logic Unit where
  World := Unit
  Later _ _ := True
  Scope _ _ := True
  Engine _ := True
  Function _ := Procedure.Engined
  Holds _ good action := Steadily (good ()) (action ())
  scope_later _ _ := trivial
  function_later _ engined := engined
  function_builtin _ := trivial
  scope_of_closure _ _ := trivial
  pure := pure
  fail := fail
  bind first continued := first.bind fun value => continued () value trivial
  resolve name _ := resolve _ name
  record _ _ := record _ _
  newScope name _ every := newScope name _ every
  newClosure params body _ _ := newClosure params body _ _
  engineOf {_ closure} engined := by
    obtain ⟨engine, runs⟩ := Option.isSome_iff_exists.mp engined
    simp only [Eval.engineOf, runs]
    exact pure trivial
  fillScope name _ paired continued := by
    apply (newScope name _ Bindings.every_nil).bind
    intro fresh _
    apply (paired () trivial).bind
    intro bound every
    apply (setAll fresh every).bind
    intro _ _
    exact continued () fresh trivial trivial
  callHost _ _ _ _ outside := outside.elim

theorem eval (fuel : Nat) (engine : EngineId) (scope : ScopeId) (form : Form) :
    Steadily (Value.Every Procedure.Engined) (MiniLisp.eval fuel engine scope form) := by
  induction fuel generalizing engine scope form with
  | zero => exact exhausted
  | succ fuel ih =>
    cases form with
    | absent => exact pure Value.every_nil
    | atom token value =>
      have holds : logic.Holds () logic.Datum fun _ => Eval.evalAtom scope value :=
        logic.evalAtom_holds trivial value
      exact nested holds engine
    | list token label items =>
      have inside : logic.Inner fun _ => MiniLisp.eval fuel :=
        fun _ engine scope form _ _ => ih engine scope form
      have holds : logic.Holds () logic.Datum fun _ =>
          Eval.evalList (MiniLisp.eval fuel) engine scope items :=
        logic.evalList_holds inside trivial trivial items
      exact nested holds engine

end Steadily

/-! ## Calls of closures -/

/-- A closure that gets as many arguments as it has parameters evaluates its body in a new scope.
On the way at most one engine is started. -/
theorem Eval.callClosure_eq {closure : Closure} {arguments : List Datum}
    (fits : arguments.length = closure.params.length) (inner : Evaluation) (machine : Machine) :
    ∃ engine ready, callClosure inner closure arguments machine =
        inner engine machine.scopes.size closure.body ready ∧
      ready.scopes = machine.scopes.push ⟨Procedure.closureName, closure.scope,
        Bindings.bindAll [] (closure.params.zip arguments)⟩ ∧
      ready.engines.size ≤ machine.engines.size + 1 := by
  let opened : Machine := { machine with
    scopes := machine.scopes.push ⟨Procedure.closureName, closure.scope,
      Bindings.bindAll [] (closure.params.zip arguments)⟩ }
  cases runs : closure.engine with
  | some engine =>
    refine ⟨engine, opened, ?_, rfl, Nat.le_succ _⟩
    simp only [callClosure, if_pos fits, engineOf, runs]
    rfl
  | none =>
    refine ⟨machine.engines.size,
      { opened with engines := opened.engines.push ⟨defaultLimit, 0, none⟩ }, ?_, rfl, ?_⟩
    · simp only [callClosure, if_pos fits, engineOf, runs]
      rfl
    · simp [opened]

/-- Where all other functions bring their engines with them, a closure starts at most one, with
whatever fuel. -/
theorem Machine.Engined.call {machine : Machine} (engined : machine.Engined)
    {arguments : List Datum} (every : ∀ argument ∈ arguments, argument.Every Procedure.Engined)
    (closure : Closure) (fuel : Nat) :
    machine.started (.closure closure) arguments fuel ≤ 1 ∧
      ∀ reason, (MiniLisp.call fuel (.closure closure) arguments machine).1 ≠
        .error (.misuse reason) := by
  have unfolded : MiniLisp.call fuel (.closure closure) arguments machine =
      Eval.callClosure (eval fuel) closure arguments machine := rfl
  by_cases fits : arguments.length = closure.params.length
  · obtain ⟨engine, ready, evaluated, scopes, size⟩ :=
      Eval.callClosure_eq fits (eval fuel) machine
    have bound := Bindings.every_nil.bindAll (Bindings.every_zip closure.params every)
    have engined' : ready.Engined := by
      rw [Machine.Engined, scopes]
      exact Scopes.every_push engined bound
    have steady := Steadily.eval fuel engine machine.scopes.size closure.body ready engined'
    rw [Machine.started, unfolded, evaluated, steady.engines]
    exact ⟨Nat.sub_le_iff_le_add'.mpr size, steady.stop⟩
  · rw [Machine.started, unfolded, Eval.callClosure, if_neg fits]
    refine ⟨Nat.sub_le_iff_le_add'.mpr (Nat.le_succ _), ?_⟩
    intro reason impossible
    cases impossible

theorem Workspace.Reachable.layered {workspace : Workspace} (reachable : workspace.Reachable) :
    workspace.machine.Layered := by
  obtain ⟨ledger, spans⟩ := reachable.exists_ledger
  exact spans.machine.layered

/-- Wherever a host has come to, evaluations inside one another are as many as the engines admit
that were there, and ten thousand more for each engine that a call starts.  A call of a closure
comes back exactly if the number of these engines is bounded, whether the closure has an engine
itself or not.  If no function that may start an engine is bound in a scope or given as an argument,
the call comes back with a value or with a fault. -/
theorem Workspace.closure_comesBack_iff {workspace : Workspace}
    (reachable : workspace.Reachable) (closure : Closure) (arguments : List Datum) :
    (∀ fuel, (MiniLisp.call fuel (.closure closure) arguments workspace.machine).1 =
        .error .exhausted →
      fuel ≤ workspace.machine.headroom +
        10000 * workspace.machine.started (.closure closure) arguments fuel) ∧
    ((∃ outcome, workspace.machine.ComesBack (.closure closure) arguments outcome) ↔
      ∃ bound, ∀ fuel, workspace.machine.started (.closure closure) arguments fuel ≤ bound) ∧
    (workspace.machine.Engined → (∀ argument ∈ arguments, argument.Every Procedure.Engined) →
      ∃ outcome, MiniLisp.call workspace.machine.fuel (.closure closure) arguments
          workspace.machine = outcome ∧
        workspace.machine.ComesBack (.closure closure) arguments outcome ∧
        ((∃ value, outcome.1 = .ok value) ∨ ∃ fault, outcome.1 = .error (.fault fault))) := by
  have layered := reachable.layered
  refine ⟨fun fuel => layered.fuel_le, layered.comesBack_iff, ?_⟩
  intro engined every
  obtain ⟨started, fair⟩ := engined.call every closure workspace.machine.fuel
  have ends : (MiniLisp.call workspace.machine.fuel (.closure closure) arguments
      workspace.machine).1 ≠ .error .exhausted := by
    intro exhausted
    have within := layered.fuel_le exhausted
    simp only [Machine.fuel, hostAllowance, defaultLimit] at within started
    omega
  refine ⟨_, rfl, layered.comesBack ends, ?_⟩
  cases came : (MiniLisp.call workspace.machine.fuel (.closure closure) arguments
      workspace.machine).1 with
  | ok value => exact .inl ⟨value, rfl⟩
  | error stop =>
    cases stop with
    | fault fault => exact .inr ⟨fault, rfl⟩
    | misuse reason => exact absurd came (fair reason)
    | exhausted => exact absurd came ends

/-- A host builds a closure over a root scope.  Its body applies a function to itself, without
end. -/
def Workspace.selfApplying : Workspace :=
  let rooted := (newRoot (some "e") Workspace.empty).2
  (newClosure (some "h") [] (.source "((lambda (g) (g g)) (lambda (g) (g g)))".toList) (some "e")
    rooted).2

/-- The functions in the body are made in the engine that the call starts, so the depth of that
engine bounds their calls of each other. -/
theorem Workspace.closure_comesBack_iff_selfApplying :
    ∃ closure, selfApplying.values.get? "h" = some (.function (.closure closure)) ∧
      closure.engine = none ∧
      ∃ outcome, selfApplying.machine.ComesBack (.closure closure) [] outcome ∧
        ((∃ value, outcome.1 = .ok value) ∨ ∃ fault, outcome.1 = .error (.fault fault)) := by
  have reachable : selfApplying.Reachable :=
    (Relation.ReflTransGen.refl.tail (.newRoot _)).tail (.newClosure _ _ _ _)
  have engined : selfApplying.machine.Engined := by
    have root : selfApplying.machine.scopes = #[].push ⟨"root", none, Bindings.library⟩ := rfl
    rw [Machine.Engined, root]
    apply Scopes.every_push
    · intro scope found present
      cases present
    · exact Bindings.every_library fun _ => trivial
  obtain ⟨closure, held, bare⟩ : ∃ closure,
      selfApplying.values.get? "h" = some (.function (.closure closure)) ∧ closure.engine = none :=
    ⟨_, rfl, rfl⟩
  obtain ⟨outcome, -, returns, ends⟩ :=
    (closure_comesBack_iff reachable closure []).2.2 engined nofun
  exact ⟨closure, held, bare, outcome, returns, ends⟩

/-! ## Closures that call themselves -/

/-- A closure that calls itself.  It has no engine and no parameters, and its body is a call of what
a name stands for; in the scope of the closure it stands for the closure. -/
structure Machine.CallsItself (machine : Machine) (closure : Closure) (name : String) : Prop where
  params : closure.params = []
  engine : closure.engine = none
  body : ∃ token label symbol, closure.body = .list token label [.atom symbol (.symbol name)]
  unreserved : SpecialForm.ofName? name = none
  bound : ∃ scope found, closure.scope = some scope ∧ machine.scopes[scope]? = some found ∧
    found.bindings.value? name = some (.function (.closure closure))

namespace Machine.CallsItself

variable {machine final : Machine} {closure : Closure} {name : String}

/-- A new scope does not change what a closure calls. -/
theorem of_push (itself : machine.CallsItself closure name) {added : Scope}
    (grown : final.scopes = machine.scopes.push added) : final.CallsItself closure name := by
  obtain ⟨scope, found, captured, present, bound⟩ := itself.bound
  refine ⟨itself.params, itself.engine, itself.body, itself.unreserved, scope, found, captured, ?_,
    bound⟩
  have inside := (Array.getElem?_eq_some_iff.mp present).1
  rw [grown, Machine.Advances.getElem?_push_of_lt inside, present]

/-- In the scope that a call opens, the name stands for the closure. -/
theorem resolve (itself : machine.CallsItself closure name)
    (grown : final.scopes =
      machine.scopes.push ⟨Procedure.closureName, closure.scope, []⟩) :
    final.scopes.resolve name machine.scopes.size = some (.function (.closure closure)) := by
  obtain ⟨scope, found, captured, present, bound⟩ := itself.bound
  have inside := (Array.getElem?_eq_some_iff.mp present).1
  obtain ⟨steps, size⟩ := Nat.exists_eq_succ_of_ne_zero (Nat.ne_zero_of_lt inside)
  have here : final.scopes[machine.scopes.size]? =
      some ⟨Procedure.closureName, closure.scope, []⟩ := by
    rw [grown, Array.getElem?_push_size]
  have outside : final.scopes[scope]? = some found := by
    rw [grown, Machine.Advances.getElem?_push_of_lt inside, present]
  rw [Scopes.resolve, Scopes.resolveWithin, here]
  simp only [Bindings.value?, captured, size, Scopes.resolveWithin, outside, bound]

/-- A call of the closure opens a scope below its own and starts an engine. -/
theorem call_eq (itself : machine.CallsItself closure name) (fuel : Nat) :
    MiniLisp.call fuel (.closure closure) [] machine =
      eval fuel machine.engines.size machine.scopes.size closure.body
        { machine with
          scopes := machine.scopes.push ⟨Procedure.closureName, closure.scope, []⟩
          engines := machine.engines.push ⟨defaultLimit, 0, none⟩ } := by
  simp only [MiniLisp.call, Eval.call, Eval.callClosure, Eval.engineOf, itself.params,
    itself.engine]
  rfl

end Machine.CallsItself

namespace Eval

variable {inner : Evaluation} {engine : EngineId} {scope : ScopeId} {machine final : Machine}

/-- A list with a single element that is a function calls it. -/
theorem evalOrdinary_single {item : Form} {procedure : Procedure}
    (looked : inner engine scope item machine = (.ok (.function procedure), final)) :
    evalOrdinary inner engine scope [item] machine = apply inner engine procedure [] final := by
  have items : [item].mapM (inner engine scope) machine =
      (.ok [.function procedure], final) := by
    rw [List.mapM_cons, Run.bind_apply_of_ok looked]
    rfl
  rw [evalOrdinary, Run.bind_apply_of_ok items]

/-- A symbol comes to the value that its name stands for, if the engine admits the evaluation. -/
theorem eval_symbol {symbol : Option Token} {name : String} {value : Datum}
    (admitted : (machine.engine engine).depth < (machine.engine engine).limit)
    (resolved : machine.scopes.resolve name scope = some value) (fuel : Nat) :
    eval (fuel + 1) engine scope (.atom symbol (.symbol name)) machine =
      (.ok value, (machine.enter engine).leave engine) := by
  have resolved' : (machine.enter engine).scopes.resolve name scope = some value := resolved
  rw [eval, step, Realm.nested_of_open admitted, evalAtom, Run.resolve_apply, resolved']

/-- A call from inside a program stops where the call stops. -/
theorem apply_of_error {procedure : Procedure} {arguments : List Datum} {stop : Stop}
    (stopped : ∀ recorded : Machine, recorded.scopes = machine.scopes →
      (call inner procedure arguments recorded).1 = .error stop) :
    (apply inner engine procedure arguments machine).1 = .error stop := by
  obtain ⟨recorded, wrote, same⟩ : ∃ recorded, Run.record engine
        (fun _ => .call procedure.name arguments) machine = (.ok (), recorded) ∧
      recorded.scopes = machine.scopes := by
    refine ⟨_, rfl, ?_⟩
    simp only
    cases (machine.engine engine).log <;> rfl
  have failed : call inner procedure arguments recorded =
      (.error stop, (call inner procedure arguments recorded).2) :=
    Prod.ext (stopped recorded same) rfl
  rw [apply, Run.bind_apply_of_ok wrote, Run.bind_apply_of_error failed]

end Eval

/-- If a closure that calls itself runs out of fuel, it does so with one more unit, too.  The call
takes place in an engine of its own, at depth two at most, so it is not refused. -/
theorem Machine.CallsItself.step {machine : Machine} {closure : Closure} {name : String}
    (itself : machine.CallsItself closure name) {fuel : Nat}
    (called : ∀ later : Machine, later.CallsItself closure name →
      (call fuel (.closure closure) [] later).1 = .error .exhausted) :
    (call (fuel + 1) (.closure closure) [] machine).1 = .error .exhausted := by
  obtain ⟨token, label, symbol, body⟩ := itself.body
  rw [itself.call_eq, body]
  generalize opened : { machine with
    scopes := machine.scopes.push ⟨Procedure.closureName, closure.scope, []⟩
    engines := machine.engines.push ⟨defaultLimit, 0, none⟩ } = ready
  generalize home : machine.engines.size = engine
  have grown : ready.scopes =
      machine.scopes.push ⟨Procedure.closureName, closure.scope, []⟩ := by rw [← opened]
  have counter : ready.engines[engine]? = some ⟨defaultLimit, 0, none⟩ := by
    rw [← opened, ← home, Array.getElem?_push_size]
  have admitted : (ready.engine engine).depth < (ready.engine engine).limit := by
    simp [Machine.engine, Array.getD_eq_getD_getElem?, counter, defaultLimit]
  have admitted' : ((ready.enter engine).engine engine).depth <
      ((ready.enter engine).engine engine).limit := by
    simp [Machine.engine, Machine.enter, Array.getD_eq_getD_getElem?, Array.getElem?_modify,
      counter, defaultLimit]
  have ordinary : Eval.special? [.atom symbol (.symbol name)] = none := itself.unreserved
  rw [eval, Eval.step, Realm.nested_of_open admitted, Eval.evalList, ordinary]
  cases fuel with
  | zero => rfl
  | succ fuel =>
    simp only [Eval.evalOrdinary_single (Eval.eval_symbol admitted' (itself.resolve grown) fuel)]
    apply Eval.apply_of_error
    intro recorded same
    exact called recorded (itself.of_push (same.trans grown))

/-- A closure that calls itself runs out of every amount of fuel. -/
theorem Machine.CallsItself.exhausted {machine : Machine} {closure : Closure} {name : String}
    (itself : machine.CallsItself closure name) (fuel : Nat) :
    (call fuel (.closure closure) [] machine).1 = .error .exhausted := by
  induction fuel generalizing machine with
  | zero =>
    rw [itself.call_eq]
    rfl
  | succ fuel ih => exact itself.step fun later again => ih again

namespace Workspace

/-- A host builds a closure with the body `(f)` over a root scope and binds it to `f` there. -/
def selfCalling : Workspace :=
  let rooted := (newRoot (some "e") Workspace.empty).2
  let made := (newClosure (some "f") [] (.source "(f)".toList) (some "e") rooted).2
  (bind "e" "f" (.stored "f") made).2

/-- The closure of this workspace has no engine, and no call of it comes back: the evaluations
inside one another are not bounded by any depth. -/
theorem closure_never_comesBack :
    selfCalling.Reachable ∧
      ∃ closure, selfCalling.values.get? "f" = some (.function (.closure closure)) ∧
        closure.engine = none ∧
        (∀ fuel, (MiniLisp.call fuel (.closure closure) [] selfCalling.machine).1 =
          .error .exhausted) ∧
        ¬∃ outcome, selfCalling.machine.ComesBack (.closure closure) [] outcome := by
  have reachable : selfCalling.Reachable :=
    ((Relation.ReflTransGen.refl.tail (.newRoot _)).tail (.newClosure _ _ _ _)).tail (.bind _ _ _)
  obtain ⟨closure, held, itself⟩ : ∃ closure,
      selfCalling.values.get? "f" = some (.function (.closure closure)) ∧
        selfCalling.machine.CallsItself closure "f" := by
    refine ⟨_, rfl, rfl, rfl, ⟨_, _, _, rfl⟩, rfl, ⟨0, _, rfl, rfl, rfl⟩⟩
  refine ⟨reachable, closure, held, itself.engine, itself.exhausted, ?_⟩
  rintro ⟨outcome, settled, enough, stable⟩
  rw [← stable enough (Nat.le_refl _)] at settled
  exact settled (itself.exhausted enough)

end Workspace

end MiniLisp
