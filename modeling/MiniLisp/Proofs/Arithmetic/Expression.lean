import MiniLisp.Builtin
import MiniLisp.Proofs.Form.Height
import MiniLisp.Proofs.Form.RoundTrip

/-!
# Arithmetic expressions

Expressions over integer literals and the four operators of arithmetic, with their values over
unbounded integers and the operations that lead there, from left to right and from the inside out.
An operation goes wrong if it divides by zero or if its result has no place among the integers of
the language.
-/

namespace MiniLisp.Arithmetic

/-- The operators of arithmetic. -/
inductive Operator where
  | add
  | sub
  | mul
  | div
  deriving DecidableEq, Repr

namespace Operator

/-- The builtin function that stands for an operator. -/
def builtin : Operator → Builtin
  | add => .add
  | sub => .sub
  | mul => .mul
  | div => .div

/-- The name of an operator. -/
def name (operator : Operator) : String :=
  operator.builtin.name

/-- The exact result of an operator.  A quotient is cut off toward zero. -/
def result : Operator → Int → Int → Int
  | add => fun left right => left + right
  | sub => fun left right => left - right
  | mul => fun left right => left * right
  | div => Int.tdiv

/-- How many operands an operator takes after the first one. -/
def Admits : Operator → Nat → Prop
  | add, _ | sub, _ => True
  | mul, others | div, others => others = 1

theorem name_symbolName (operator : Operator) : SymbolName operator.name.toList := by
  cases operator with
  | add | sub | mul | div =>
    exact ⟨by decide, by simp [name, builtin, Builtin.name, Text.isBlank], by decide⟩

end Operator

/-- An exact integer is one of the language. -/
def Fits (value : Int) : Prop :=
  Builtin.minInt ≤ value ∧ value ≤ Builtin.maxInt

instance (value : Int) : Decidable (Fits value) :=
  inferInstanceAs (Decidable (_ ∧ _))

theorem fits_toInt (value : Int64) : Fits value.toInt :=
  ⟨value.le_toInt, Int.le_sub_one_of_lt value.toInt_lt⟩

theorem toInt_eq_zero_iff {value : Int64} : value.toInt = 0 ↔ value = 0 := by
  rw [← Int64.toInt_inj, Int64.toInt_zero]

theorem Fits.toInt_ofInt {value : Int} (fits : Fits value) : (Int64.ofInt value).toInt = value :=
  Int64.toInt_ofInt_of_le fits.1 (Int.lt_of_le_sub_one fits.2)

theorem fit?_eq (value : Int) :
    Builtin.fit? value = if Fits value then some (Int64.ofInt value) else none := rfl

theorem checked_of_fits {value : Int} (fits : Fits value) :
    Builtin.checked value = .ok (Int64.ofInt value) := by
  rw [Builtin.checked, fit?_eq, if_pos fits]

theorem checked_of_not_fits {value : Int} (unfit : ¬Fits value) :
    Builtin.checked value = .error (.overflow (some value)) := by
  rw [Builtin.checked, fit?_eq, if_neg unfit]

/-- An operator with its operands. -/
structure Operation where
  operator : Operator
  left : Int
  right : Int
  deriving DecidableEq, Repr

namespace Operation

/-- The exact result of an operation. -/
def result (operation : Operation) : Int :=
  operation.operator.result operation.left operation.right

/-- What is wrong with an operation, if anything is.  The fault of a quotient out of range does not
show it. -/
def cause? (operation : Operation) : Option Fault :=
  if operation.operator = .div ∧ operation.right = 0 then some .divisionByZero
  else if Fits operation.result then none
  else some (.overflow (if operation.operator = .div then none else some operation.result))

/-- The fault that a wrong operation is reported as. -/
def fault? (operation : Operation) : Option Fault :=
  operation.cause?.map (.application operation.operator.name)

theorem cause?_eq_none_iff {operation : Operation} :
    operation.cause? = none ↔
      ¬(operation.operator = .div ∧ operation.right = 0) ∧ Fits operation.result := by
  rw [cause?]
  split
  next zero => exact iff_of_false nofun fun sound => sound.1 zero
  next nonzero =>
    split
    next fits => exact iff_of_true rfl ⟨nonzero, fits⟩
    next unfit => exact iff_of_false nofun fun sound => unfit sound.2

end Operation

/-- The fault of the first operation that goes wrong. -/
def firstFault? (operations : List Operation) : Option Fault :=
  operations.findSome? Operation.fault?

theorem firstFault?_append (before after : List Operation) :
    firstFault? (before ++ after) = (firstFault? before).or (firstFault? after) :=
  List.findSome?_append

theorem firstFault?_eq_none {operations : List Operation}
    (sound : ∀ operation ∈ operations, operation.cause? = none) :
    firstFault? operations = none := by
  apply List.findSome?_eq_none_iff.mpr
  intro operation member
  rw [Operation.fault?, sound operation member, Option.map_none]

theorem firstFault?_eq_some {before after : List Operation} {failing : Operation} {cause : Fault}
    (sound : ∀ operation ∈ before, operation.cause? = none) (wrong : failing.cause? = some cause) :
    firstFault? (before ++ failing :: after) =
      some (.application failing.operator.name cause) := by
  rw [firstFault?_append, firstFault?_eq_none sound, Option.none_or, firstFault?,
    List.findSome?_cons, Operation.fault?, wrong, Option.map_some]

/-- What is wrong with the first operation that goes wrong. -/
def firstCause? (operations : List Operation) : Option Fault :=
  operations.findSome? Operation.cause?

theorem firstCause?_cons (operation : Operation) (rest : List Operation) :
    firstCause? (operation :: rest) = operation.cause?.or (firstCause? rest) := by
  rw [firstCause?, List.findSome?_cons]
  cases operation.cause? <;> rfl

/-- The operations that an operator carries out on integers from the left. -/
def folds (operator : Operator) : Int → List Int → List Operation
  | _, [] => []
  | start, next :: rest =>
    ⟨operator, start, next⟩ :: folds operator (operator.result start next) rest

/-- The operations of one operator blame that operator. -/
theorem firstFault?_folds (operator : Operator) (start : Int) (values : List Int) :
    firstFault? (folds operator start values) =
      (firstCause? (folds operator start values)).map (.application operator.name) := by
  induction values generalizing start with
  | nil => rfl
  | cons next rest ih =>
    simp only [folds, firstFault?, List.findSome?_cons, Operation.fault?, firstCause?_cons] at ih ⊢
    cases Operation.cause? ⟨operator, start, next⟩ with
    | none => simpa using ih _
    | some cause => rfl

theorem folds_fits {operator : Operator} {start : Int} {values : List Int} (fits : Fits start)
    (sound : firstCause? (folds operator start values) = none) :
    Fits (values.foldl operator.result start) := by
  induction values generalizing start with
  | nil => exact fits
  | cons next rest ih =>
    rw [folds, firstCause?_cons, Option.or_eq_none_iff] at sound
    exact ih (Operation.cause?_eq_none_iff.mp sound.1).2 sound.2

/-- The expressions of arithmetic.  Sums and differences have one operand or more. -/
inductive Expression where
  | literal (value : Int64) (nonnegative : 0 ≤ value)
  | sum (first : Expression) (rest : List Expression)
  | difference (first : Expression) (rest : List Expression)
  | product (left right : Expression)
  | quotient (left right : Expression)

namespace Expression

mutual

/-- The value of an expression over unbounded integers. -/
def value : Expression → Int
  | literal value _ => value.toInt
  | sum first rest => (values rest).foldl (fun left right => left + right) first.value
  | difference first rest => (values rest).foldl (fun left right => left - right) first.value
  | product left right => left.value * right.value
  | quotient left right => left.value.tdiv right.value

/-- The values of several expressions. -/
def values : List Expression → List Int
  | [] => []
  | first :: rest => first.value :: values rest

end

mutual

/-- An expression as a form of the language. -/
def form : Expression → Form
  | literal value _ => .int value
  | sum first rest => .ofList (.symbol Operator.add.name :: first.form :: forms rest)
  | difference first rest => .ofList (.symbol Operator.sub.name :: first.form :: forms rest)
  | product left right => .ofList [.symbol Operator.mul.name, left.form, right.form]
  | quotient left right => .ofList [.symbol Operator.div.name, left.form, right.form]

/-- Several expressions as forms. -/
def forms : List Expression → List Form
  | [] => []
  | first :: rest => first.form :: forms rest

end

mutual

/-- The operations of an expression: those of its operands from left to right, then its own. -/
def operations : Expression → List Operation
  | literal _ _ => []
  | sum first rest =>
    first.operations ++ operationsIn rest ++ folds .add first.value (values rest)
  | difference first rest =>
    first.operations ++ operationsIn rest ++ folds .sub first.value (values rest)
  | product left right =>
    left.operations ++ right.operations ++ [⟨.mul, left.value, right.value⟩]
  | quotient left right =>
    left.operations ++ right.operations ++ [⟨.div, left.value, right.value⟩]

/-- The operations of several expressions. -/
def operationsIn : List Expression → List Operation
  | [] => []
  | first :: rest => first.operations ++ operationsIn rest

end

/-- An expression applies an operator to operands. -/
structure Applies (expression : Expression) (operator : Operator) (first : Expression)
    (rest : List Expression) : Prop where
  admits : operator.Admits rest.length
  value_eq : expression.value = (values rest).foldl operator.result first.value
  form_eq : expression.form =
    .ofList (.symbol operator.name :: first.form :: forms rest)
  operations_eq : expression.operations =
    first.operations ++ operationsIn rest ++ folds operator first.value (values rest)

theorem applies_sum (first : Expression) (rest : List Expression) :
    (sum first rest).Applies .add first rest :=
  ⟨trivial, by rw [value]; rfl, by rw [form], by rw [operations]⟩

theorem applies_difference (first : Expression) (rest : List Expression) :
    (difference first rest).Applies .sub first rest :=
  ⟨trivial, by rw [value]; rfl, by rw [form], by rw [operations]⟩

theorem applies_product (left right : Expression) :
    (product left right).Applies .mul left [right] :=
  ⟨rfl, by rw [value]; rfl, by rw [form]; rfl, by
    rw [operations, operationsIn, operationsIn, List.append_nil]; rfl⟩

theorem applies_quotient (left right : Expression) :
    (quotient left right).Applies .div left [right] :=
  ⟨rfl, by rw [value]; rfl, by rw [form]; rfl, by
    rw [operations, operationsIn, operationsIn, List.append_nil]; rfl⟩

mutual

/-- Induction over expressions, whatever operator they apply. -/
@[elab_as_elim]
theorem induct {motive : Expression → Prop}
    (literal : ∀ value nonnegative, motive (.literal value nonnegative))
    (applied : ∀ {expression operator first rest}, expression.Applies operator first rest →
      motive first → (∀ item ∈ rest, motive item) → motive expression) :
    (expression : Expression) → motive expression
  | .literal value nonnegative => literal value nonnegative
  | .sum first rest =>
    applied (applies_sum first rest) (induct literal applied first) (inductIn literal applied rest)
  | .difference first rest =>
    applied (applies_difference first rest) (induct literal applied first)
      (inductIn literal applied rest)
  | .product left right =>
    applied (applies_product left right) (induct literal applied left)
      (List.forall_mem_singleton.mpr (induct literal applied right))
  | .quotient left right =>
    applied (applies_quotient left right) (induct literal applied left)
      (List.forall_mem_singleton.mpr (induct literal applied right))

theorem inductIn {motive : Expression → Prop}
    (literal : ∀ value nonnegative, motive (.literal value nonnegative))
    (applied : ∀ {expression operator first rest}, expression.Applies operator first rest →
      motive first → (∀ item ∈ rest, motive item) → motive expression) :
    (items : List Expression) → ∀ item ∈ items, motive item
  | [] => nofun
  | first :: rest =>
    List.forall_mem_cons.mpr ⟨induct literal applied first, inductIn literal applied rest⟩

end

theorem Applies.firstFault?_eq {expression first : Expression} {operator : Operator}
    {rest : List Expression} (applies : expression.Applies operator first rest) :
    firstFault? expression.operations =
      ((firstFault? first.operations).or (firstFault? (operationsIn rest))).or
        ((firstCause? (folds operator first.value (values rest))).map
          (.application operator.name)) := by
  rw [applies.operations_eq, firstFault?_append, firstFault?_append, firstFault?_folds]

/-- An expression none of whose operations goes wrong has a value of the language. -/
theorem value_fits (expression : Expression) (sound : firstFault? expression.operations = none) :
    Fits expression.value := by
  induction expression using induct with
  | literal number nonnegative =>
    rw [value]
    exact fits_toInt number
  | applied applies ihFirst ihRest =>
    rw [applies.firstFault?_eq, Option.or_eq_none_iff, Option.or_eq_none_iff,
      Option.map_eq_none_iff] at sound
    rw [applies.value_eq]
    exact folds_fits (ihFirst sound.1.1) sound.2

theorem values_fit {items : List Expression} (sound : firstFault? (operationsIn items) = none) :
    ∀ value ∈ values items, Fits value := by
  induction items with
  | nil => nofun
  | cons first rest ih =>
    rw [operationsIn, firstFault?_append, Option.or_eq_none_iff] at sound
    rw [values]
    exact List.forall_mem_cons.mpr ⟨value_fits first sound.1, ih sound.2⟩

theorem length_values (items : List Expression) : (values items).length = items.length := by
  induction items with
  | nil => rfl
  | cons first rest ih => rw [values, List.length_cons, ih, List.length_cons]

theorem forms_eq_map (items : List Expression) : forms items = items.map form := by
  induction items with
  | nil => rfl
  | cons first rest ih => rw [forms, ih, List.map_cons]

/-- An expression can be read back from its text. -/
theorem form_writable (expression : Expression) : expression.form.Writable := by
  induction expression using induct with
  | literal value nonnegative =>
    rw [form]
    exact .atom nonnegative
  | @applied _ operator _ _ applies ihFirst ihRest =>
    rw [applies.form_eq, forms_eq_map]
    refine .list (List.forall_mem_cons.mpr ⟨.atom operator.name_symbolName, ?_⟩)
    exact List.forall_mem_cons.mpr ⟨ihFirst, List.forall_mem_map.mpr ihRest⟩

end Expression

end MiniLisp.Arithmetic
