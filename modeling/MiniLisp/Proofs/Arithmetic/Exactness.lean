import MiniLisp.Proofs.Arithmetic.Expression
import MiniLisp.Proofs.Semantics.Adequacy

/-!
# Exact arithmetic

The builtin functions of arithmetic compute exactly, or say why they cannot.  So the text of an
expression comes to the value of the expression over unbounded integers, unless an operation goes
wrong; then it comes to the fault of the first such operation.
-/

namespace MiniLisp

variable {α β : Type}

/-- A value, unless something is wrong. -/
def settled (fault? : Option Fault) (value : α) : Except Fault α :=
  match fault? with
  | none => .ok value
  | some fault => .error fault

theorem settled_bind {fault? fault?' : Option Fault} {value : α} {value' : β}
    {next : α → Except Fault β} (goesOn : fault? = none → next value = settled fault?' value') :
    (settled fault? value >>= next) = settled (fault?.or fault?') value' := by
  cases fault? with
  | none => exact goesOn rfl
  | some fault => rfl

namespace Semantics.Computation

/-- A computation comes to a value without making a closure, unless something is wrong. -/
def Settles (action : Computation α) (fault? : Option Fault) (value : α) : Prop :=
  ∀ supply, action supply = some ((settled fault? value).map (·, supply))

theorem settles_pure (value : α) : Settles (pure value) none value :=
  fun _ => rfl

theorem Settles.bind {action : Computation α} {next : α → Computation β}
    {fault? fault?' : Option Fault} {value : α} {value' : β} (first : action.Settles fault? value)
    (goesOn : fault? = none → (next value).Settles fault?' value') :
    (action >>= next).Settles (fault?.or fault?') value' := by
  intro supply
  cases fault? with
  | none => exact bind_of_ok (first supply) (goesOn rfl supply)
  | some fault => exact bind_of_error (first supply)

theorem Settles.mapM_cons {γ : Type} {action : γ → Computation α} {first : γ} {rest : List γ}
    {fault? fault?' : Option Fault} {value : α} {values : List α}
    (head : (action first).Settles fault? value)
    (tail : Settles (rest.mapM action) fault?' values) :
    Settles ((first :: rest).mapM action) (fault?.or fault?') (value :: values) := by
  rw [List.mapM_cons]
  apply head.bind
  intro _
  have collected : Settles (rest.mapM action >>= fun values => pure (value :: values))
      (fault?'.or none) (value :: values) := tail.bind fun _ => settles_pure _
  rwa [Option.or_none] at collected

/-- The call of a builtin function blames the function. -/
theorem settles_call (inner : Interpretation) {operation : Builtin} {arguments : List Meaning}
    {cause? : Option Fault} {value : Meaning}
    (applied : operation.apply arguments = settled cause? value) :
    (call inner (.builtin operation) arguments).Settles
      (cause?.map (.application operation.name)) value := by
  intro supply
  simp only [call, applied]
  cases cause? <;> rfl

end Semantics.Computation

namespace Arithmetic

/-- Exact integers as values of the language. -/
def meanings (values : List Int) : List Semantics.Meaning :=
  values.map fun value => .int (Int64.ofInt value)

/-! ## One operator -/

namespace Operator

/-- An operator on the integers of the language. -/
def compute (operator : Operator) (left right : Int64) : Except Fault Int64 :=
  settled (Operation.cause? ⟨operator, left.toInt, right.toInt⟩)
    (Int64.ofInt (operator.result left.toInt right.toInt))

theorem checked_eq_compute {operator : Operator} (other : operator ≠ div) (left right : Int64) :
    Builtin.checked (operator.result left.toInt right.toInt) = operator.compute left right := by
  simp only [Builtin.checked, fit?_eq, compute, Operation.cause?, Operation.result, other,
    false_and, if_false]
  by_cases fits : Fits (operator.result left.toInt right.toInt)
  · simp only [fits, if_true, settled]
  · simp only [fits, if_false, settled]

theorem quotient_eq_compute (left right : Int64) :
    Builtin.quotient left right = div.compute left right := by
  simp only [Builtin.quotient, fit?_eq, compute, Operation.cause?, Operation.result, result,
    ← toInt_eq_zero_iff, true_and, if_true]
  by_cases zero : right.toInt = 0
  · simp only [zero, if_true, settled]
  · by_cases fits : Fits (left.toInt.tdiv right.toInt)
    · simp only [zero, fits, if_true, if_false, settled]
    · simp only [zero, fits, if_false, settled]

/-- An operator folds its operands from the left, and fails where the first operation does. -/
theorem foldlM_compute (operator : Operator) {start : Int} (fits : Fits start) {values : List Int}
    (fit : ∀ value ∈ values, Fits value) :
    (values.map Int64.ofInt).foldlM operator.compute (Int64.ofInt start) =
      settled (firstCause? (folds operator start values))
        (Int64.ofInt (values.foldl operator.result start)) := by
  induction values generalizing start with
  | nil => rfl
  | cons next rest ih =>
    obtain ⟨nextFits, restFit⟩ := List.forall_mem_cons.mp fit
    rw [List.map_cons, List.foldlM_cons, folds, firstCause?_cons, compute, fits.toInt_ofInt,
      nextFits.toInt_ofInt]
    apply settled_bind
    intro sound
    exact ih (Operation.cause?_eq_none_iff.mp sound).2 restFit

theorem foldlM_plus {φ : Type} (start : Int64) (rest : List Int64) :
    (rest.map .int).foldlM Builtin.plus (.int start : Value φ) =
      .int <$> rest.foldlM add.compute start := by
  induction rest generalizing start with
  | nil => rfl
  | cons next rest ih =>
    have added : Builtin.plus (.int start : Value φ) (.int next) =
        .int <$> add.compute start next := by
      rw [← checked_eq_compute (by decide)]
      rfl
    rw [List.map_cons, List.foldlM_cons, List.foldlM_cons, added]
    cases add.compute start next with
    | error cause => rfl
    | ok value => exact ih value

theorem mapM_integer {φ : Type} (values : List Int64) :
    (values.map (Value.int : Int64 → Value φ)).mapM Builtin.integer = .ok values := by
  induction values with
  | nil => rfl
  | cons first rest ih =>
    rw [List.map_cons, List.mapM_cons, ih]
    rfl

/-- The builtin function of an operator folds the operator over its arguments. -/
theorem apply_ints {φ : Type} [Callee φ] (operator : Operator) (start : Int64) {rest : List Int64}
    (admits : operator.Admits rest.length) :
    operator.builtin.apply (.int start :: rest.map .int : List (Value φ)) =
      .int <$> rest.foldlM operator.compute start := by
  cases operator with
  | add => exact foldlM_plus start rest
  | sub =>
    have subtracted : Builtin.minus = sub.compute := by
      funext left right
      exact checked_eq_compute (by decide : sub ≠ div) left right
    rw [builtin, Builtin.apply, mapM_integer, subtracted]
    rfl
  | mul =>
    obtain ⟨factor, rfl⟩ := List.length_eq_one_iff.mp admits
    have multiplied : Builtin.times start factor = mul.compute start factor :=
      checked_eq_compute (by decide : mul ≠ div) start factor
    rw [List.foldlM_cons, ← multiplied]
    change (Builtin.times start factor >>= fun product => pure (Value.int product)) = _
    cases Builtin.times start factor <;> rfl
  | div =>
    obtain ⟨divisor, rfl⟩ := List.length_eq_one_iff.mp admits
    rw [List.foldlM_cons, ← quotient_eq_compute]
    change (Builtin.quotient start divisor >>= fun quotient => pure (Value.int quotient)) = _
    cases Builtin.quotient start divisor <;> rfl

/-- The builtin function of an operator computes exactly what the operator does. -/
theorem apply_exact (operator : Operator) {start : Int} {values : List Int}
    (admits : operator.Admits values.length) (fits : Fits start)
    (fit : ∀ value ∈ values, Fits value) :
    operator.builtin.apply (meanings (start :: values)) =
      settled (firstCause? (folds operator start values))
        (.int (Int64.ofInt (values.foldl operator.result start))) := by
  rw [← List.length_map Int64.ofInt] at admits
  have applied : operator.builtin.apply (.int (Int64.ofInt start) ::
      (values.map Int64.ofInt).map .int : List Semantics.Meaning) = _ :=
    operator.apply_ints (Int64.ofInt start) admits
  rw [operator.foldlM_compute fits fit, List.map_map] at applied
  rw [meanings, List.map_cons, ← Function.comp_def, applied]
  cases firstCause? (folds operator start values) <;> rfl

theorem special?_eq_none (operator : Operator) (token : Option Token) (rest : List Form) :
    Eval.special? (.atom token (.symbol operator.name) :: rest) = none := by
  cases operator <;> rfl

/-- The name of an operator stands for its builtin function. -/
theorem symbol_settles (operator : Operator) (token : Option Token) (room : Nat) :
    (Semantics.eval (room + 1) Semantics.Chain.root
      (.atom token (.symbol operator.name))).Settles none
        (.function (.builtin operator.builtin)) := by
  intro supply
  cases operator <;> rfl

end Operator

/-! ## Whole expressions -/

namespace Expression

open Semantics (Chain Computation)

/-- Every form that is the same as an expression comes to the value of the expression, or to the
fault of its first operation that goes wrong. -/
def Faithful (expression : Expression) : Prop :=
  ∀ form : Form, form.same expression.form = true →
    ∀ room, expression.form.height ≤ room →
      (Semantics.eval room Chain.root form).Settles (firstFault? expression.operations)
        (.int (Int64.ofInt expression.value))

theorem mapM_settles {items : List Expression} (faithful : ∀ item ∈ items, item.Faithful)
    {read : List Form} (alike : Form.sameItems read (forms items) = true) {room : Nat}
    (enough : Form.heightIn (forms items) ≤ room) :
    Computation.Settles (read.mapM (Semantics.eval room Chain.root))
      (firstFault? (operationsIn items)) (meanings (values items)) := by
  induction items generalizing read with
  | nil =>
    cases read with
    | nil => exact Computation.settles_pure []
    | cons => cases alike
  | cons first rest ih =>
    obtain ⟨form, others, rfl, alikeFirst, alikeRest⟩ := Form.exists_of_sameItems_cons alike
    obtain ⟨firstFaithful, restFaithful⟩ := List.forall_mem_cons.mp faithful
    rw [Expression.forms, Form.heightIn] at enough
    rw [operationsIn, firstFault?_append]
    exact (firstFaithful form alikeFirst room (by omega)).mapM_cons
      (ih restFaithful alikeRest (by omega))

theorem faithful_literal {value : Int64} {nonnegative : 0 ≤ value} :
    (literal value nonnegative).Faithful := by
  intro form alike room enough
  obtain ⟨token, rfl⟩ := Form.exists_of_same_atom alike
  cases room with
  | zero => cases enough
  | succ room =>
    rw [Expression.value, Int64.ofInt_toInt]
    exact Computation.settles_pure _

/-- The operands of an operator are evaluated before the operator is called. -/
theorem Applies.faithful {expression first : Expression} {operator : Operator}
    {rest : List Expression} (applies : expression.Applies operator first rest)
    (operands : ∀ item ∈ first :: rest, item.Faithful) : expression.Faithful := by
  intro form alike room enough
  rw [applies.form_eq] at alike enough
  obtain ⟨token, label, items, rfl, alikeItems⟩ := Form.exists_of_same_list alike
  obtain ⟨head, read, rfl, alikeHead, alikeRead⟩ := Form.exists_of_sameItems_cons alikeItems
  obtain ⟨token', rfl⟩ := Form.exists_of_same_atom alikeHead
  simp only [Form.ofList, Form.symbol, Form.height, Form.heightIn] at enough
  -- One level is for the list itself and one for the name of the operator.
  obtain ⟨inner, rfl⟩ : ∃ inner, room = inner + 2 := ⟨room - 2, by omega⟩
  have high : Form.heightIn (forms (first :: rest)) ≤ inner + 1 := by
    rw [forms, Form.heightIn]
    omega
  have elements := (operator.symbol_settles token' inner).mapM_cons
    (mapM_settles operands alikeRead high)
  rw [applies.firstFault?_eq, applies.value_eq, Semantics.eval, Semantics.evalList,
    operator.special?_eq_none]
  rw [Option.none_or, operationsIn, firstFault?_append] at elements
  apply elements.bind
  intro sound
  obtain ⟨firstSound, restSound⟩ := Option.or_eq_none_iff.mp sound
  apply Computation.settles_call
  refine operator.apply_exact ?_ (value_fits first firstSound) (values_fit restSound)
  rw [length_values]
  exact applies.admits

theorem faithful (expression : Expression) : expression.Faithful := by
  induction expression using induct with
  | literal value nonnegative => exact faithful_literal
  | applied applies ihFirst ihRest =>
    exact applies.faithful (List.forall_mem_cons.mpr ⟨ihFirst, ihRest⟩)

end Expression

end Arithmetic

namespace Interpreter

open Arithmetic

/-- Arithmetic is exact from the text of an expression to the text of its value: where no operation
goes wrong, the value is the one over unbounded integers, and otherwise the first operation that
goes wrong is to blame. -/
theorem interpret_expression (interpreter : Interpreter) (expression : Expression)
    (machine : Machine) (enough : expression.form.height ≤ interpreter.limit) :
    ((∀ operation ∈ expression.operations, operation.cause? = none) →
      ∃ value : Int64,
        (interpreter.interpret expression.form.encode.toList machine).1 = .ok (.int value) ∧
          value.toInt = expression.value ∧
          (Value.int value : Datum).render = toString expression.value) ∧
    (∀ before failing after cause, expression.operations = before ++ failing :: after →
      (∀ operation ∈ before, operation.cause? = none) → failing.cause? = some cause →
        (interpreter.interpret expression.form.encode.toList machine).1 =
          .error (.fault (.application failing.operator.name cause))) := by
  obtain ⟨read, parsed, alike⟩ := expression.form_writable.parse_encode
  have settles := expression.faithful read alike interpreter.limit enough 0
  rw [Semantics.interpret_eq_evaluate parsed]
  constructor
  · intro sound
    have faultless := firstFault?_eq_none sound
    have kept := (expression.value_fits faultless).toInt_ofInt
    rw [faultless] at settles
    refine ⟨_, Semantics.evaluate_of_int settles machine, kept, ?_⟩
    rw [Value.render, kept]
  · intro before failing after cause parted sound wrong
    rw [parted, firstFault?_eq_some sound wrong] at settles
    exact Semantics.evaluate_of_fault settles machine

/-- In `(- (div 7 2) (* 3 4))` nothing goes wrong.  In `(+ 9223372036854775807 1 (div 1 0))` the
division is to blame, since its turn comes before the sum leaves the range. -/
theorem interpret_expression_order :
    let fine := Expression.difference
      (.quotient (.literal 7 (by decide)) (.literal 2 (by decide)))
      [.product (.literal 3 (by decide)) (.literal 4 (by decide))]
    let wrong := Expression.sum (.literal 9223372036854775807 (by decide))
      [.literal 1 (by decide), .quotient (.literal 1 (by decide)) (.literal 0 (by decide))]
    let interpreter := Interpreter.mk 3 none
    (∃ value : Int64,
      (interpreter.interpret fine.form.encode.toList Machine.empty).1 = .ok (.int value) ∧
        value.toInt = -9) ∧
      (interpreter.interpret wrong.form.encode.toList Machine.empty).1 =
        .error (.fault (.application "div" .divisionByZero)) := by
  intro fine wrong interpreter
  constructor
  · obtain ⟨value, found, kept, -⟩ :=
      (interpreter.interpret_expression fine Machine.empty (by decide)).1 (by decide)
    exact ⟨value, found, kept⟩
  · exact (interpreter.interpret_expression wrong Machine.empty (by decide)).2 []
      ⟨.div, 1, 0⟩ _ _ rfl nofun rfl

end Interpreter

end MiniLisp
