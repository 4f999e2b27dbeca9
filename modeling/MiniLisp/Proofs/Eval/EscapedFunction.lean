import MiniLisp.Proofs.Eval.Law
import MiniLisp.Proofs.Eval.Literal

/-!
# Functions that outlive their evaluation

A host may call a function that a program came to.  The function runs in the engine of that
evaluation, over scopes that nobody changes any more.  So it answers the same whenever it is called,
whatever was evaluated or called in between, and it answers what the program would have answered if
it had applied the function itself, unless that application was too deep: the host has one level
more to give.
-/

namespace MiniLisp

/-! ## Literal arguments -/

namespace Form

variable {φ ψ : Type}

mutual

/-- What a literal form shows has no function in it, so it is related to itself. -/
theorem image_lift (related : φ → ψ → Prop) :
    (form : Form) → Value.Lift related form.image form.image
  | absent | atom _ (.symbol _) => trivial
  | atom _ (.int _) | atom _ (.string _) => rfl
  | list _ _ items => imageIn_lift related items

theorem imageIn_lift (related : φ → ψ → Prop) :
    (items : List Form) → Value.LiftItems related (imageIn items) (imageIn items)
  | [] => trivial
  | first :: rest => ⟨image_lift related first, imageIn_lift related rest⟩

end

end Form

namespace Semantics

variable {room supply : Nat} {chain : Chain}

theorem mapM_literal {inner : Form → Computation Meaning} {items : List Form}
    (each : ∀ item ∈ items, ∀ supply outcome, inner item supply = some outcome →
      outcome = .ok (item.image, supply)) {outcome : Outcome (List Meaning)}
    (came : items.mapM inner supply = some outcome) :
    outcome = .ok (Form.imageIn items, supply) := by
  induction items generalizing outcome with
  | nil =>
    cases came
    rfl
  | cons first rest ih =>
    rw [List.forall_mem_cons] at each
    rw [List.mapM_cons, Computation.bind_eq_some_iff] at came
    rcases came with ⟨fault, failed, rfl⟩ | ⟨value, middle, done, came⟩
    · cases each.1 supply _ failed
    · cases each.1 supply _ done
      rw [Computation.bind_eq_some_iff] at came
      rcases came with ⟨fault, failed, rfl⟩ | ⟨values, last, done, came⟩
      · cases ih each.2 failed
      · cases ih each.2 done
        cases came
        rfl

/-- Where a literal form has an outcome, that is the value that it shows. -/
theorem eval_literal {form : Form} (literal : form.Literal) {outcome : Outcome Meaning}
    (came : eval room chain form supply = some outcome) : outcome = .ok (form.image, supply) := by
  induction room generalizing form supply outcome with
  | zero =>
    cases form with
    | absent =>
      cases came
      rfl
    | atom | list => cases came
  | succ room ih =>
    cases form with
    | absent =>
      cases came
      rfl
    | atom token value =>
      cases value with
      | int | string =>
        cases came
        rfl
      | symbol name => cases literal
    | list token label items =>
      rw [Form.literal_list_iff] at literal
      simp only [eval, evalList, Form.special?_of_literal literal, evalOrdinary] at came
      rw [Computation.bind_eq_some_iff] at came
      have each : ∀ item ∈ items, ∀ supply outcome, eval room chain item supply = some outcome →
          outcome = .ok (item.image, supply) :=
        fun item among _ _ found => ih (literal item among) found
      rcases came with ⟨fault, failed, rfl⟩ | ⟨values, last, done, came⟩
      · cases mapM_literal each failed
      · cases mapM_literal each done
        cases items with
        | nil =>
          cases came
          rfl
        | cons first rest =>
          have data := @Form.image_ne_function Function first
          simp only [Form.imageIn, Form.image] at came ⊢
          generalize (first.image : Meaning) = value at data came ⊢
          cases value with
          | function callee => exact absurd rfl (data callee)
          | nil | int | text | bool | list =>
            cases came
            rfl

/-! ## Applications -/

/-- A reserved word is no function. -/
theorem ordinary_of_function {form : Form} {function : Function}
    (answered : eval room Chain.root form 0 = some (.ok (.function function, supply)))
    (arguments : List Form) : Eval.special? (form :: arguments) = none := by
  rw [special?_eq_none_iff]
  rintro _ _ special ⟨⟩ reserved
  have unbound : Chain.value? special.name Chain.root = none := by
    cases special <;> decide
  cases room with
  | zero => cases form <;> cases answered
  | succ room =>
    cases form with
    | absent | list => cases reserved
    | atom token value =>
      cases value with
      | int | string => cases reserved
      | symbol name =>
        cases reserved
        simp only [eval, evalAtom, unbound] at answered
        cases answered

/-- What the application of a form to literal arguments comes to is what the function comes to that
is the value of the form. -/
theorem call_of_application {form : Form} {function : Function} {arguments : List Form}
    (answered : eval room Chain.root form 0 = some (.ok (.function function, supply)))
    (literal : ∀ argument ∈ arguments, argument.Literal) {outcome : Outcome Meaning}
    (came : eval room Chain.root (.ofList (form :: arguments)) 0 = some outcome) :
    call (eval room) function (Form.imageIn arguments) supply = some outcome := by
  have ordinary := ordinary_of_function answered arguments
  cases room with
  | zero => cases came
  | succ room =>
    simp only [Form.ofList, eval, evalList, ordinary, evalOrdinary, List.mapM_cons, bind_assoc,
      pure_bind] at came
    rw [Computation.bind_eq_some_iff] at came
    rcases came with ⟨fault, failed, rfl⟩ | ⟨value, middle, done, came⟩
    · have deeper := eval_below_succ room _ _ _ _ failed
      rw [answered] at deeper
      cases deeper
    · have deeper := eval_below_succ room _ _ _ _ done
      rw [answered] at deeper
      cases deeper
      have each : ∀ argument ∈ arguments, ∀ supply outcome,
          eval room Chain.root argument supply = some outcome →
            outcome = .ok (argument.image, supply) :=
        fun argument among _ _ found => eval_literal (literal argument among) found
      rw [Computation.bind_eq_some_iff] at came
      rcases came with ⟨fault, failed, rfl⟩ | ⟨values, last, done, came⟩
      · cases mapM_literal each failed
      · cases mapM_literal each done
        exact call_below (eval_below_succ room) _ _ _ _ came

/-! ## Answers with one meaning -/

/-- Runs that come to the same outcome under the same limit give the same answer. -/
theorem Mirrors.sameAnswer {setting setting' : Setting} {room room' : Nat} {world world' : World}
    {scopes scopes' : Scopes} {result result' : Except Stop Datum × Machine}
    {denoted : Option (Outcome Meaning)} (limits : setting.limit = setting'.limit)
    (mirrors : Mirrors setting room (Means setting) world scopes result denoted)
    (mirrors' : Mirrors setting' room' (Means setting') world' scopes' result' denoted) :
    SameAnswer result.1 result'.1 := by
  cases mirrors with
  | value _ _ means =>
    cases mirrors' with
    | value _ _ means' =>
      apply SameAnswer.value
      rw [means.render_eq Stands.render_eq, means'.render_eq Stands.render_eq]
  | fault fault =>
    cases mirrors'
    exact .fault fault
  | tooDeep =>
    cases mirrors'
    rw [limits]
    exact .fault _

/-! ## Functions and their meanings -/

section Escaped

variable {interpreter : Interpreter} {form : Form} {start machine : Machine} {procedure : Procedure}

/-- A function that a form came to has a meaning, and the machine has all that the meaning speaks
about. -/
theorem exists_meaning
    (answered : interpreter.evaluate form none start = (.ok (.function procedure), machine)) :
    ∃ world supply function,
      Realizes (startSetting interpreter start) world interpreter.limit supply machine ∧
        Stands (startSetting interpreter start) world procedure function ∧
        eval interpreter.limit Chain.root form 0 = some (.ok (.function function, supply)) := by
  have mirrors := evaluate_mirrors interpreter form start
  rw [answered] at mirrors
  generalize eval interpreter.limit Chain.root form 0 = denoted at mirrors ⊢
  cases mirrors with
  | @value _ meaning world supply _ realizes later means =>
    cases meaning with
    | function function => exact ⟨world, supply, function, realizes, means, rfl⟩
    | nil | int | text | bool | list => exact means.elim

/-- A form that denotes a function comes to one. -/
theorem exists_function {function : Function} {supply : Nat}
    (denoted : eval interpreter.limit Chain.root form 0 = some (.ok (.function function, supply)))
    (start : Machine) : ∃ procedure machine,
      interpreter.evaluate form none start = (.ok (.function procedure), machine) := by
  have mirrors := evaluate_mirrors interpreter form start
  rw [denoted] at mirrors
  generalize interpreter.evaluate form none start = outcome at mirrors ⊢
  cases mirrors with
  | @value value _ _ _ final realizes later means =>
    cases value with
    | function procedure => exact ⟨procedure, final, rfl⟩
    | nil | int | text | bool | list => exact means.elim

/-- A call by the host comes to what its meaning comes to with as much room as the limit admits. -/
theorem call_mirrors {setting : Setting} {world : World} {supply : Nat} {function : Function}
    (realizes : Realizes setting world setting.limit supply machine)
    (stands : Stands setting world procedure function) (arguments : List Form) :
    Mirrors setting setting.limit (Means setting) world machine.scopes
      (MiniLisp.call machine.fuel procedure (Form.imageIn arguments) machine)
      (call (eval setting.limit) function (Form.imageIn arguments) supply) := by
  obtain ⟨depth, log, present, full⟩ := realizes.engine
  have room : setting.limit - depth < machine.fuel := Machine.room_lt_fuel present
  have enough : setting.limit < machine.fuel := by omega
  exact call_follows (eval_follows enough) stands (Form.imageIn_lift _ arguments) machine supply
    realizes

end Escaped

end Semantics

/-! ## Calls by the host -/

/-- The machines to which a host comes by evaluating forms and calling functions, however these
evaluations and calls end. -/
inductive Machine.Continues (machine : Machine) : Machine → Prop where
  | refl : Continues machine machine
  | evaluate {later : Machine} (before : Continues machine later) (interpreter : Interpreter)
      (form : Form) (scope : Option ScopeId) :
      Continues machine (interpreter.evaluate form scope later).2
  | call {later : Machine} (before : Continues machine later) (fuel : Nat) (procedure : Procedure)
      (arguments : List Datum) : Continues machine (MiniLisp.call fuel procedure arguments later).2

theorem Machine.Continues.advances {machine later : Machine} (continues : machine.Continues later) :
    machine.Advances later := by
  induction continues with
  | refl => exact .refl machine
  | evaluate _ interpreter form scope ih =>
    exact ih.trans (interpreter.evaluate_advances form scope _)
  | call _ fuel procedure arguments ih =>
    exact ih.trans (Eval.advancing.call_holds fuel procedure arguments _)

namespace Interpreter

variable {interpreter : Interpreter} {form : Form} {start machine : Machine} {procedure : Procedure}

/-- A function that a form came to corresponds to itself. -/
theorem exists_pairing
    (answered : interpreter.evaluate form none start = (.ok (.function procedure), machine)) :
    ∃ engines pairing, Pairing.Paired engines pairing machine machine ∧
      pairing.Stands procedure procedure := by
  let ready := Semantics.prepared interpreter start
  have root : ready.scopes[start.scopes.size]? = some ⟨"root", none, Bindings.library⟩ :=
    Array.getElem?_push_size
  have closed : ready.scopes.Closed (· = start.scopes.size) := by
    rintro _ rfl
    exact ⟨_, root, nofun⟩
  have every : ∀ scope found, scope = start.scopes.size → ready.scopes[scope]? = some found →
      found.bindings.Every (ready.Native (· = start.scopes.size)) := by
    rintro _ found rfl present
    cases root.symm.trans present
    exact Bindings.every_library fun _ => trivial
  have enough : Engine.room ready.engines < ready.fuel := Nat.lt_add_of_pos_right (by decide)
  have shares : (Pairing.diagonal ready (· = start.scopes.size)).Shares form.Reads
      start.scopes.size start.scopes.size :=
    @Pairing.diagonal_shares ready (· = start.scopes.size) start.scopes.size rfl _
  have twin := Pairing.eval_lockstep enough _ start.engines.size _ _ form shares ready ready
    (Pairing.diagonal_paired closed every)
  rw [← Semantics.evaluate_eq, answered] at twin
  cases twin with
  | value paired grows left right holds => exact ⟨_, _, paired, holds⟩

/-- A function answers the same at every later time. -/
theorem call_repeats
    (answered : interpreter.evaluate form none start = (.ok (.function procedure), machine))
    (arguments : List Form) {later : Machine} (advances : machine.Advances later) :
    SameAnswer (call machine.fuel procedure (Form.imageIn arguments) machine).1
      (call later.fuel procedure (Form.imageIn arguments) later).1 := by
  obtain ⟨world, supply, function, realizes, stands, -⟩ := Semantics.exists_meaning answered
  obtain ⟨engines, pairing, paired, corresponds⟩ := exists_pairing answered
  -- Between the two stands a machine with the scopes of the first and the engines of the second.
  -- Engines that were added say nothing to the function, and neither do scopes and closures.
  let between : Machine := { machine with engines := later.engines }
  have realizes' : Semantics.Realizes (Semantics.startSetting interpreter start) world
      interpreter.limit supply between := by
    obtain ⟨depth, log, present, full⟩ := realizes.engine
    have kept := advances.engines _ (Array.getElem?_eq_some_iff.mp present).1
    exact ⟨realizes.scopes, realizes.closures, depth, log, kept.trans present, full⟩
  have paired' : Pairing.Paired later.engines pairing between later :=
    paired.of_kept rfl rfl (fun _ _ => rfl)
      (fun scope known => advances.scopes scope (paired.right.lt_size known)) (Nat.le_refl _)
      advances.closures
  have enough : Engine.room later.engines < later.fuel := Nat.lt_add_of_pos_right (by decide)
  have engines : SameAnswer (call machine.fuel procedure (Form.imageIn arguments) machine).1
      (call later.fuel procedure (Form.imageIn arguments) between).1 :=
    (Semantics.call_mirrors realizes stands arguments).sameAnswer rfl
      (Semantics.call_mirrors realizes' stands arguments)
  have means : List.Forall₂ pairing.Means (Form.imageIn arguments) (Form.imageIn arguments) :=
    Value.liftItems_iff_forall₂.mp (Form.imageIn_lift _ arguments)
  exact engines.trans (Pairing.call_lockstep (Pairing.eval_lockstep enough) corresponds means _ _
    paired').sameAnswer

/-- A function answers what an application of it answers under the same limit, unless the
application is too deep. -/
theorem call_of_application
    (answered : interpreter.evaluate form none start = (.ok (.function procedure), machine))
    {arguments : List Form} (literal : ∀ argument ∈ arguments, argument.Literal)
    {application : Form} (alike : application.same (.ofList (form :: arguments)) = true)
    {other : Interpreter} (limits : other.limit = interpreter.limit) {later : Machine}
    (shallow : ¬Semantics.ExceedsDepth (other.evaluate application none later).1) :
    SameAnswer (other.evaluate application none later).1
      (call machine.fuel procedure (Form.imageIn arguments) machine).1 := by
  obtain ⟨world, supply, function, realizes, stands, denoted⟩ := Semantics.exists_meaning answered
  have same := other.evaluate_same alike later later
  have mirrors := Semantics.evaluate_mirrors other (.ofList (form :: arguments)) later
  rw [limits] at mirrors
  cases found : Semantics.eval interpreter.limit .root (.ofList (form :: arguments)) 0 with
  | none =>
    rw [found] at mirrors
    exact absurd (same.symm.exceedsDepth mirrors.exceedsDepth) shallow
  | some outcome =>
    rw [found] at mirrors
    have called := Semantics.call_mirrors realizes stands arguments
    have came := Semantics.call_of_application denoted literal found
    rw [show (Semantics.startSetting interpreter start).limit = interpreter.limit from rfl, came]
      at called
    exact same.trans (mirrors.sameAnswer limits called)

/-- A function that a form comes to gives the same answer to literal arguments whenever the host
calls it, whatever the host has evaluated and called in the meantime and however that ended.  It is
the answer that an application of the form to these arguments gives under the same limit, if that is
not too deep. -/
theorem escaped_function_answers
    (answered : interpreter.evaluate form none start = (.ok (.function procedure), machine))
    {arguments : List Form} (literal : ∀ argument ∈ arguments, argument.Literal) :
    (∀ later, machine.Continues later →
      SameAnswer (call machine.fuel procedure (Form.imageIn arguments) machine).1
        (call later.fuel procedure (Form.imageIn arguments) later).1) ∧
    ∀ other : Interpreter, other.limit = interpreter.limit → ∀ later application,
      application.same (.ofList (form :: arguments)) = true →
      (¬Semantics.ExceedsDepth (other.evaluate application none later).1 →
        SameAnswer (call machine.fuel procedure (Form.imageIn arguments) machine).1
          (other.evaluate application none later).1) ∧
      ∀ source, Form.parse source = .ok application →
        ¬Semantics.ExceedsDepth (other.interpret source later).1 →
        SameAnswer (call machine.fuel procedure (Form.imageIn arguments) machine).1
          (other.interpret source later).1 := by
  refine ⟨fun later continues => call_repeats answered arguments continues.advances, ?_⟩
  intro other limits later application alike
  refine ⟨fun shallow => ?_, fun source accepted shallow => ?_⟩
  · exact (call_of_application answered literal alike limits shallow).symm
  · rw [Semantics.interpret_eq_evaluate accepted] at shallow ⊢
    exact (call_of_application answered literal alike limits shallow).symm

/-- A closure over the scope of a `define` gives fifteen as often as it is called, as its
application does. -/
theorem escaped_function_answers_adder :
    let form := Form.ofList [.symbol "define", .ofList [.ofList [.symbol "n", .int 10]],
      .ofList [.symbol "lambda", .ofList [.symbol "x"],
        .ofList [.symbol "+", .symbol "x", .symbol "n"]]]
    let application := Form.ofList [form, .int 5]
    ∃ procedure machine,
      (Interpreter.mk 5 none).evaluate form none Machine.empty =
        (.ok (.function procedure), machine) ∧
      (∀ later, machine.Continues later →
        SameAnswer (call machine.fuel procedure [.int 5] machine).1
          (call later.fuel procedure [.int 5] later).1) ∧
      ∀ later,
        ((Interpreter.mk 5 (some 0)).evaluate application none later).1 = .ok (.int 15) ∧
        SameAnswer (call machine.fuel procedure [.int 5] machine).1 (.ok (.int 15)) := by
  intro form application
  obtain ⟨procedure, machine, answered⟩ :=
    @Semantics.exists_function (Interpreter.mk 5 none) form _ _ rfl Machine.empty
  have literal : ∀ argument ∈ [Form.int 5], argument.Literal := by decide
  have images : (Form.imageIn [.int 5] : List Datum) = [.int 5] := rfl
  have answers := escaped_function_answers answered literal
  rw [images] at answers
  refine ⟨procedure, machine, answered, answers.1, fun later => ?_⟩
  have fifteen : ((Interpreter.mk 5 (some 0)).evaluate application none later).1 = .ok (.int 15) :=
    @Semantics.evaluate_of_int (Interpreter.mk 5 (some 0)) application 15 1 rfl later
  have applied := (answers.2 (Interpreter.mk 5 (some 0)) rfl later application
    (Form.same_refl application)).1
  rw [fifteen] at applied
  refine ⟨fifteen, applied ?_⟩
  rintro ⟨fault, failed, -⟩
  cases failed

end Interpreter

end MiniLisp
