import MiniLisp.Proofs.Eval.Lockstep

/-!
# A `define` is an applied `lambda`

`(define ((x e) ...) body)` and `((lambda (x ...) body) e ...)` give the same answer.  They go
different ways: one creates its scope before the expressions are evaluated and fills it afterwards,
the other makes a closure first and creates the scope of the call last.  So the numbers of scopes
and closures differ, and nothing else does, down to the depth that each of them takes.
-/

namespace MiniLisp

open Pairing

namespace Form

/-- A form `(define ((name expression) ...) body)` with the given pairs. -/
def Defines (form : Form) (pairs : List (String × Form)) (body : Form) : Prop :=
  ∃ token label head token' label' bindings,
    form = .list token label [head, .list token' label' bindings, body] ∧
      Semantics.Reserves .define head ∧ bindings.mapM Eval.binding? = some pairs

/-- A form `((lambda (name ...) body) expression ...)` with the given pairs. -/
def Applies (form : Form) (pairs : List (String × Form)) (body : Form) : Prop :=
  ∃ token label token' label' head token'' label'' params,
    form = .list token label
        (.list token' label' [head, .list token'' label'' params, body] :: pairs.map Prod.snd) ∧
      Semantics.Reserves .lambda head ∧ params.mapM symbolName? = some (pairs.map Prod.fst)

end Form

namespace Eval

/-! ## Engines that admit nothing -/

section Refused

variable {machine : Machine} {engine : EngineId} {fuel : Nat}

theorem eval_refused (refused : ¬Engine.Admits machine.engines engine) (scope : ScopeId)
    {form : Form} (visible : form ≠ .absent) :
    eval (fuel + 1) engine scope form machine =
      (.error (.fault (.tooDeep (machine.engine engine).limit)), machine) := by
  cases form with
  | absent => exact absurd rfl visible
  | atom | list => exact if_neg refused

/-- Where nothing is admitted, bindings come to nothing but absent values. -/
theorem evalBindings_refused (refused : ¬Engine.Admits machine.engines engine) (scope : ScopeId)
    {bindings : List Form} {pairs : List (String × Form)}
    (shaped : bindings.mapM Eval.binding? = some pairs) :
    (∃ values, Eval.evalBindings (eval (fuel + 1)) engine scope bindings machine =
        (.ok values, machine)) ∨
      Eval.evalBindings (eval (fuel + 1)) engine scope bindings machine =
        (.error (.fault (.tooDeep (machine.engine engine).limit)), machine) := by
  simp only [Eval.evalBindings]
  induction bindings generalizing pairs with
  | nil => exact .inl ⟨[], rfl⟩
  | cons first rest ih =>
    obtain ⟨name, expression, others, found, remaining, -⟩ :=
      Semantics.exists_of_mapM_binding?_cons shaped
    simp only [List.mapM_cons, found, bind_assoc, pure_bind]
    by_cases visible : expression = .absent
    · have nothing : eval (fuel + 1) engine scope expression machine = (.ok .nil, machine) := by
        rw [visible]
        rfl
      rw [Run.bind_apply_of_ok nothing]
      rcases ih remaining with ⟨values, came⟩ | failed
      · rw [Run.bind_apply_of_ok came]
        exact .inl ⟨_, rfl⟩
      · rw [Run.bind_apply_of_error failed]
        exact .inr rfl
    · rw [Run.bind_apply_of_error (eval_refused refused scope visible)]
      exact .inr rfl

theorem evalDefine_refused (refused : ¬Engine.Admits machine.engines engine) (scope : ScopeId)
    {head body : Form} {token : Option Token} {label : Option Nat} {bindings : List Form}
    {pairs : List (String × Form)} (shaped : bindings.mapM Eval.binding? = some pairs)
    (visible : body ≠ .absent) :
    (Eval.evalDefine (eval (fuel + 1)) engine scope [head, .list token label bindings, body]
      machine).1 = .error (.fault (.tooDeep (machine.engine engine).limit)) := by
  let opened : Machine :=
    { machine with scopes := machine.scopes.push ⟨SpecialForm.define.name, some scope, []⟩ }
  have created : Run.newScope SpecialForm.define.name (some scope) [] machine =
      (.ok machine.scopes.size, opened) := rfl
  have refused' : ¬Engine.Admits opened.engines engine := refused
  simp only [Eval.evalDefine]
  rw [Run.bind_apply_of_ok created]
  rcases evalBindings_refused refused' scope shaped with ⟨values, came⟩ | failed
  · rw [Run.bind_apply_of_ok came]
    have filled : Run.setAll machine.scopes.size values opened =
        (.ok (), { opened with scopes := opened.scopes.bindAll machine.scopes.size values }) := rfl
    rw [Run.bind_apply_of_ok filled]
    have last := @eval_refused
      { opened with scopes := opened.scopes.bindAll machine.scopes.size values } engine fuel refused
      machine.scopes.size body visible
    rw [last]
    rfl
  · rw [Run.bind_apply_of_error failed]
    rfl

end Refused

/-! ## The two ways in lockstep -/

section Admitted

variable {engines : Array Engine} {pairing : Pairing} {engine : EngineId} {scope scope' : ScopeId}
variable {fuel : Nat} {bindings : List Form} {pairs : List (String × Form)}

/-- The closure of an applied `lambda`. -/
theorem eval_lambda {machine : Machine} (admits : Engine.Admits machine.engines engine)
    (scope : ScopeId) {token token' : Option Token} {label label' : Option Nat} {head body : Form}
    {params : List Form} {names : List String} (reserved : Semantics.Reserves .lambda head)
    (named : params.mapM Form.symbolName? = some names) :
    ∃ trace, eval (fuel + 1) engine scope
        (.list token label [head, .list token' label' params, body]) machine =
      (.ok (.function (.closure ⟨machine.closures, names, body, some scope, some engine⟩)),
        { machine with closures := machine.closures + 1, trace := trace }) := by
  obtain ⟨trace, recorded⟩ := record_apply engine (fun machine =>
    .form .lambda scope ((machine.scopes[scope]?.map Scope.name).getD "")) (machine.enter engine)
  refine ⟨trace, ?_⟩
  have made : Eval.evalList (eval fuel) engine scope [head, .list token' label' params, body]
      (machine.enter engine) =
        (.ok (.function (.closure ⟨machine.closures, names, body, some scope, some engine⟩)),
          { machine.enter engine with closures := machine.closures + 1, trace := trace }) := by
    simp only [Eval.evalList, Semantics.special?_cons_eq_some_iff.mpr reserved, Eval.evalSpecial]
    rw [Run.bind_apply_of_ok recorded]
    simp only [Eval.evalLambda, named]
    rfl
  have balanced : (machine.enter engine).engines.modify engine
      (fun found => { found with depth := found.depth - 1 }) = machine.engines :=
    Engine.left_entered
  have admitted : (machine.engine engine).depth < (machine.engine engine).limit := admits
  simp only [eval, Eval.step, Run.nested]
  rw [if_pos admitted, made]
  simp only [Machine.leave, balanced]
  rfl

/-- A call of a closure with arguments for all its parameters evaluates the body in a new scope. -/
theorem apply_closure (inner : Evaluation) (engine home : EngineId) (identity : Nat)
    {names : List String} (body : Form) (scope : ScopeId) {values : List Datum}
    (enough : values.length = names.length) (machine : Machine) :
    ∃ trace, Eval.apply inner engine
        (.closure ⟨identity, names, body, some scope, some home⟩) values machine =
      (do
        let value ← inner home machine.scopes.size body
        Run.record engine fun _ => .result value
        return value : Run Datum)
        { machine with
          scopes := machine.scopes.push
            ⟨Procedure.closureName, some scope, Bindings.bindAll [] (names.zip values)⟩
          trace := trace } := by
  obtain ⟨trace, recorded⟩ := record_apply engine
    (fun _ => .call Procedure.closureName values) machine
  refine ⟨trace, ?_⟩
  have created : Run.newScope Procedure.closureName (some scope)
      (Bindings.bindAll [] (names.zip values)) { machine with trace := trace } =
      (.ok machine.scopes.size,
        { machine with
          scopes := machine.scopes.push
            ⟨Procedure.closureName, some scope, Bindings.bindAll [] (names.zip values)⟩
          trace := trace }) := rfl
  simp only [Eval.apply, Procedure.name, Eval.call, Eval.callClosure, Eval.engineOf, enough,
    if_true, pure_bind, bind_assoc]
  rw [Run.bind_apply_of_ok recorded, Run.bind_apply_of_ok created]

variable (inside : Inside engines (eval (fuel + 1)))

include inside

theorem expressions_lockstep (engine : EngineId)
    (shares : pairing.Shares (fun _ => True) scope scope')
    (shaped : bindings.mapM Eval.binding? = some pairs) :
    Lockstep engines
      (fun later values values' => values'.length = (pairs.map Prod.fst).length ∧
        List.Forall₂ later.PairMeans values ((pairs.map Prod.fst).zip values'))
      pairing (Eval.evalBindings (eval (fuel + 1)) engine scope bindings)
      ((pairs.map Prod.snd).mapM (eval (fuel + 1) engine scope')) := by
  simp only [Eval.evalBindings]
  induction bindings generalizing pairing pairs with
  | nil =>
    cases shaped
    exact .pure ⟨rfl, .nil⟩
  | cons first rest ih =>
    obtain ⟨name, expression, others, found, remaining, rfl⟩ :=
      Semantics.exists_of_mapM_binding?_cons shaped
    simp only [List.map_cons, List.mapM_cons, found, bind_assoc, pure_bind]
    apply (inside _ engine _ _ expression (shares.of_imp fun _ _ => trivial)).bind
    intro later value value' grows means
    apply (ih (shares.mono grows) remaining).bind
    rintro last values values' grows' ⟨enough, meant⟩
    exact .pure ⟨congrArg (· + 1) enough, .cons ⟨rfl, means.mono grows'⟩ meant⟩

/-- Where an engine admits one more level, a `define` is in lockstep with an applied `lambda`. -/
theorem define_applied_lockstep (admits : Engine.Admits engines engine)
    (shares : pairing.Shares (fun _ => True) scope scope')
    (shaped : bindings.mapM Eval.binding? = some pairs) {head head' body : Form}
    {token token' token'' : Option Token} {label label' label'' : Option Nat} {params : List Form}
    (reserved : Semantics.Reserves .lambda head')
    (named : params.mapM Form.symbolName? = some (pairs.map Prod.fst)) :
    Lockstep engines Means pairing
      (Eval.evalDefine (eval (fuel + 1)) engine scope [head, .list token label bindings, body])
      (Eval.evalOrdinary (eval (fuel + 1)) engine scope'
        (.list token' label' [head', .list token'' label'' params, body] ::
          pairs.map Prod.snd)) := by
  intro machine machine' paired
  -- Before the expressions one side has a scope more and the other a closure, and neither of these
  -- is known.  Afterwards the scope is filled, the scope of the call is new, and both are known.
  let added : Scope := ⟨SpecialForm.define.name, some scope, []⟩
  have created : Run.newScope SpecialForm.define.name (some scope) [] machine =
      (.ok machine.scopes.size, { machine with scopes := machine.scopes.push added }) := rfl
  obtain ⟨trace, made⟩ := @eval_lambda engine fuel machine' (paired.counted' ▸ admits) scope'
    token' token'' label' label'' head' body params _ reserved named
  have ready : Paired engines pairing { machine with scopes := machine.scopes.push added }
      { machine' with closures := machine'.closures + 1, trace := trace } :=
    (paired.push added).of_kept paired.counted paired.counted' (fun _ _ => rfl) (fun _ _ => rfl)
      (Nat.le_refl _) (Nat.le_succ _)
  have evaluated := expressions_lockstep inside engine shares shaped _ _ ready
  simp only [Eval.evalDefine, Eval.evalOrdinary, List.mapM_cons, bind_assoc, pure_bind]
  rw [Run.bind_apply_of_ok created, Run.bind_apply_of_ok made, Run.bind_apply, Run.bind_apply]
  generalize Eval.evalBindings (eval (fuel + 1)) engine scope bindings _ = outcome at evaluated ⊢
  generalize (pairs.map Prod.snd).mapM (eval (fuel + 1) engine scope') _ = outcome' at evaluated ⊢
  cases evaluated with
  | fault fault final final' => exact .fault fault final final'
  | @value values values' later final final' paired' grows left right holds =>
    obtain ⟨lengths, means⟩ := holds
    obtain ⟨unknown, present, left'⟩ := left.fill paired.left values
    obtain ⟨trace', applied⟩ := apply_closure (eval (fuel + 1)) engine engine machine'.closures body
      scope' lengths final'
    let added' : Scope := ⟨Procedure.closureName, some scope',
      Bindings.bindAll [] ((pairs.map Prod.fst).zip values')⟩
    have opened : Paired engines later
        { final with scopes := final.scopes.bindAll machine.scopes.size values }
        { final' with scopes := final'.scopes.push added', trace := trace' } :=
      ((paired'.fill unknown values).push' added').of_kept paired'.counted paired'.counted'
        (fun _ _ => rfl) (fun _ _ => rfl) (Nat.le_refl _) (Nat.le_refl _)
    have known := opened.withScope present Array.getElem?_push_size rfl rfl
      (paired.left.lt_size shares.left) (paired'.right.lt_size (grows.right shares.right))
      (grows.left shares.left) (grows.right shares.right) (FrameMeans.nil.bindAll means)
      fun _ => False.elim
    have shared := shares_withScope (shares.mono grows) machine.scopes.size final'.scopes.size
      fun _ => False
    have last := inside _ engine _ _ body (shared.of_imp fun _ _ => .inr trivial)
    change Twin engines Means pairing machine.scopes machine'.scopes
      (eval (fuel + 1) engine machine.scopes.size body
        { final with scopes := final.scopes.bindAll machine.scopes.size values })
      (Eval.apply (eval (fuel + 1)) engine _ values' final')
    rw [applied]
    exact (last.bind_record_right _ _ known).of_later (grows.trans (grows_withScope ..)) left'
      ((right.trans (.push _ _ added')).insert right.size_le)

end Admitted

section Blocks

variable {engines : Array Engine} {pairing : Pairing} {engine : EngineId} {scope scope' : ScopeId}
variable {fuel : Nat} {pairs : List (String × Form)} {body : Form}

/-- Where an engine admits nothing, a `define` fails as soon as something is evaluated in it, and an
applied `lambda` fails at once. -/
theorem define_applied_refused (refused : ¬Engine.Admits engines engine) {bindings : List Form}
    (shaped : bindings.mapM Eval.binding? = some pairs) (visible : body ≠ .absent) {head : Form}
    {token token' : Option Token} {label label' : Option Nat} {items : List Form} :
    Lockstep engines Means pairing
      (Eval.evalDefine (eval (fuel + 1)) engine scope [head, .list token label bindings, body])
      (Eval.evalOrdinary (eval (fuel + 1)) engine scope'
        (.list token' label' items :: pairs.map Prod.snd)) := by
  intro machine machine' paired
  have counted : (machine'.engine engine).limit = (machine.engine engine).limit := by
    rw [Machine.engine, Machine.engine, paired.counted, paired.counted']
  have failed := @evalDefine_refused machine engine fuel (paired.counted ▸ refused) scope head body
    token label bindings pairs shaped visible
  have failed' : Eval.evalOrdinary (eval (fuel + 1)) engine scope'
      (.list token' label' items :: pairs.map Prod.snd) machine' =
        (.error (.fault (.tooDeep (machine.engine engine).limit)), machine') := by
    have full := @eval_refused machine' engine fuel (paired.counted' ▸ refused) scope'
      (.list token' label' items) (by simp)
    simp only [Eval.evalOrdinary, List.mapM_cons, bind_assoc]
    rw [Run.bind_apply_of_error full, counted]
  rw [failed']
  generalize Eval.evalDefine (eval (fuel + 1)) engine scope [head, .list token label bindings, body]
    machine = outcome at failed ⊢
  obtain ⟨result, final⟩ := outcome
  cases failed
  exact .fault _ final machine'

/-- A `define` is in lockstep with an applied `lambda`, in scopes that agree on all names. -/
theorem block_lockstep {define application : Form} (defines : define.Defines pairs body)
    (applies : application.Applies pairs body) (visible : body ≠ .absent)
    (shares : pairing.Shares (fun _ => True) scope scope') (engine : EngineId)
    (enough : Engine.room engines < fuel) :
    Lockstep engines Means pairing (eval fuel engine scope define)
      (eval fuel engine scope' application) := by
  obtain ⟨token, label, head, token', label', bindings, rfl, reserved, shaped⟩ := defines
  obtain ⟨_, _, token', label', head', token'', label'', params, rfl, reserved', named⟩ := applies
  cases fuel with
  | zero => cases enough
  | succ fuel =>
    simp only [eval, Eval.step]
    apply Lockstep.nested
    intro admits
    have deeper : Engine.room (Engine.entered engines engine) < fuel :=
      Nat.lt_of_lt_of_le (Engine.room_entered admits) (Nat.le_of_lt_succ enough)
    obtain ⟨fuel, rfl⟩ := Nat.exists_eq_succ_of_ne_zero (Nat.ne_zero_of_lt deeper)
    simp only [Eval.evalList, Semantics.special?_cons_eq_some_iff.mpr reserved]
    apply Lockstep.record_left
    by_cases admits' : Engine.Admits (Engine.entered engines engine) engine
    · exact define_applied_lockstep (eval_lockstep deeper) admits' shares shaped reserved' named
    · exact define_applied_refused admits' shaped visible

end Blocks

end Eval

/-- An interpreter evaluates a form in a given scope in an engine of its own. -/
theorem evaluate_in_scope (interpreter : Interpreter) (form : Form) (scope : ScopeId)
    (machine : Machine) :
    interpreter.evaluate form (some scope) machine =
      eval { machine with
          engines := machine.engines.push ⟨interpreter.limit, 0, interpreter.log⟩ }.fuel
        machine.engines.size scope form
        { machine with
          engines := machine.engines.push ⟨interpreter.limit, 0, interpreter.log⟩ } := by
  have started : Interpreter.startingScope (some scope) machine = (.ok scope, machine) := rfl
  have engaged : Run.newEngine interpreter.limit interpreter.log machine =
      (.ok machine.engines.size, { machine with
        engines := machine.engines.push ⟨interpreter.limit, 0, interpreter.log⟩ }) := rfl
  rw [Interpreter.evaluate, Run.bind_apply_of_ok started, Run.bind_apply_of_ok engaged,
    Run.bind_apply_of_ok (Run.get_apply _)]

/-- In a scope whose functions are those of the language itself, a `define` gives the same answer as
an applied `lambda`, in every engine at every depth, and so it does for every interpreter. -/
theorem define_answers_as_applied_lambda {machine : Machine} {scope : ScopeId}
    (lexical : machine.Lexical scope) {define application body : Form}
    {pairs : List (String × Form)} (defines : define.Defines pairs body)
    (applies : application.Applies pairs body) (visible : body ≠ .absent) :
    (∀ (engine : EngineId) (fuel : Nat), machine.headroom < fuel →
      SameAnswer (eval fuel engine scope define machine).1
        (eval fuel engine scope application machine).1) ∧
    ∀ interpreter : Interpreter,
      SameAnswer (interpreter.evaluate define (some scope) machine).1
        (interpreter.evaluate application (some scope) machine).1 := by
  obtain ⟨reach, inside, closed, every⟩ := lexical
  refine ⟨?_, ?_⟩
  · intro engine fuel enough
    have paired := diagonal_paired closed every
    exact (Eval.block_lockstep defines applies visible (diagonal_shares inside _) engine enough _ _
      paired).sameAnswer
  · intro interpreter
    let ready : Machine :=
      { machine with engines := machine.engines.push ⟨interpreter.limit, 0, interpreter.log⟩ }
    have paired : Paired ready.engines (diagonal ready reach) ready ready :=
      diagonal_paired closed every
    have enough : ready.headroom < ready.fuel := Nat.lt_add_of_pos_right (by decide)
    rw [evaluate_in_scope, evaluate_in_scope]
    exact (Eval.block_lockstep defines applies visible (diagonal_shares inside _) _ enough _ _
      paired).sameAnswer

/-- A name is bound twice, and both expressions and the body call a closure that runs in another
engine, while three more levels are left in the engine of the form. -/
theorem define_answers_as_applied_lambda_bound_twice :
    let double : Closure :=
      ⟨0, ["y"], .ofList [.symbol "+", .symbol "y", .symbol "y"], some 0, some 1⟩
    let machine : Machine :=
      ⟨#[⟨"root", none, Bindings.library⟩, ⟨"user", some 0, [("f", .function (.closure double))]⟩],
        #[⟨4, 1, none⟩, ⟨6, 2, none⟩], #[], 1, #[]⟩
    let first := Form.ofList [.symbol "f", .int 1]
    let second := Form.ofList [.symbol "f", .int 5]
    let body := Form.ofList [.symbol "f", .symbol "x"]
    let define := Form.ofList [.symbol "define",
      .ofList [.ofList [.symbol "x", first], .ofList [.symbol "x", second]], body]
    let application := Form.ofList [.ofList [.symbol "lambda",
      .ofList [.symbol "x", .symbol "x"], body], first, second]
    machine.Lexical 1 ∧ define.Defines [("x", first), ("x", second)] body ∧
      application.Applies [("x", first), ("x", second)] body ∧
      (eval 8 0 1 define machine).1.toOption.map Value.render = some "20" ∧
      SameAnswer (eval 8 0 1 define machine).1 (eval 8 0 1 application machine).1 := by
  intro double machine first second body define application
  have lexical : machine.Lexical 1 := by
    refine ⟨(· < 2), Nat.one_lt_two, ?_, ?_⟩
    · rintro (_ | _ | scope) inside
      · exact ⟨_, rfl, nofun⟩
      · refine ⟨_, rfl, ?_⟩
        rintro _ ⟨⟩
        exact ⟨Nat.one_pos, Nat.two_pos⟩
      · exact absurd inside (by simp)
    · rintro (_ | _ | scope) found inside present
      · cases present
        exact Bindings.every_library fun _ => trivial
      · cases present
        intro pair member
        rw [List.mem_singleton.mp member]
        exact Value.every_function_iff.mpr ⟨Nat.one_pos, ⟨0, rfl, Nat.two_pos⟩, 1, rfl⟩
      · cases present
  have defines : define.Defines [("x", first), ("x", second)] body :=
    ⟨_, _, _, _, _, _, rfl, rfl, rfl⟩
  have applies : application.Applies [("x", first), ("x", second)] body :=
    ⟨_, _, _, _, _, _, _, _, rfl, rfl, rfl⟩
  refine ⟨lexical, defines, applies, by decide +kernel, ?_⟩
  exact (define_answers_as_applied_lambda lexical defines applies nofun).1 0 8 (by decide)

end MiniLisp
