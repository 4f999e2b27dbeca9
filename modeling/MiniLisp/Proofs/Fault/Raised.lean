import MiniLisp.Proofs.Eval.Termination
import MiniLisp.Proofs.Reader.Completion

/-!
# The faults that programs raise

A builtin function complains about its arguments, a closure about their number, and every other
fault of an evaluation stands on its own.  However deep a fault arises, nothing is wrapped around it
on its way out.  What fails while a text is read says so, and does not arise later.
-/

namespace MiniLisp

/-- What can be wrong with the arguments of a function. -/
inductive Fault.Elementary : Fault → Prop where
  | wrongArity (expected : Arity) (got : Nat) : Elementary (.wrongArity expected got)
  | wrongType (expected got : ValueType) : Elementary (.wrongType expected got)
  | headOfEmpty : Elementary .headOfEmpty
  | divisionByZero : Elementary .divisionByZero
  | overflow (result : Option Int) : Elementary (.overflow result)

/-- The faults that evaluation raises. -/
inductive Fault.Raised : Fault → Prop where
  | unbound (name : String) : Raised (.unbound name)
  | malformed (form : SpecialForm) : Raised (.malformed form)
  | tooDeep (limit : Nat) : Raised (.tooDeep limit)
  | builtin (operation : Builtin) {cause : Fault} (elementary : cause.Elementary) :
      Raised (.application operation.name cause)
  | closure (expected : Arity) (got : Nat) :
      Raised (.application Procedure.closureName (.wrongArity expected got))

/-- The faults that reading a text raises. -/
inductive Fault.Unreadable : Fault → Prop where
  | endOfInput (token : Option Token) : Unreadable (.reading .endOfInput token)
  | unexpectedEnd (token : Option Token) : Unreadable (.reading .unexpectedEnd token)
  | unexpectedToken (token : Option Token) : Unreadable (.reading .unexpectedToken token)
  | integerRange (literal : String) (token : Option Token) :
      Unreadable (.reading (.integerRange literal) token)

/-! ## Builtin functions -/

namespace Builtin

variable {α β φ : Type}

/-- An operation fails, if it does, because of its arguments. -/
def Plain (outcome : Except Fault α) : Prop :=
  ∀ cause, outcome = .error cause → cause.Elementary

theorem plain_ok (value : α) : Plain (.ok value) := nofun

theorem plain_error {cause : Fault} (elementary : cause.Elementary) :
    Plain (.error cause : Except Fault α) := by
  rintro _ ⟨⟩
  exact elementary

theorem Plain.bind {action : Except Fault α} {next : α → Except Fault β} (first : Plain action)
    (second : ∀ value, Plain (next value)) : Plain (action >>= next) := by
  cases action with
  | ok value => exact second value
  | error cause => exact plain_error (first cause rfl)

theorem plain_mapM {operation : α → Except Fault β} (each : ∀ item, Plain (operation item))
    (items : List α) : Plain (items.mapM operation) := by
  induction items with
  | nil => exact plain_ok []
  | cons first rest ih =>
    rw [List.mapM_cons]
    exact (each first).bind fun _ => ih.bind fun _ => plain_ok _

theorem plain_foldlM {operation : β → α → Except Fault β}
    (each : ∀ result item, Plain (operation result item)) (items : List α) (start : β) :
    Plain (items.foldlM operation start) := by
  induction items generalizing start with
  | nil => exact plain_ok start
  | cons first rest ih =>
    rw [List.foldlM_cons]
    exact (each start first).bind ih

theorem checked_plain (result : Int) : Plain (checked result) := by
  rw [checked]
  split
  · exact plain_ok _
  · exact plain_error (.overflow _)

theorem quotient_plain (left right : Int64) : Plain (quotient left right) := by
  rw [quotient]
  split
  · exact plain_error .divisionByZero
  · split
    · exact plain_ok _
    · exact plain_error (.overflow _)

theorem integer_plain (value : Value φ) : Plain (integer value) := by
  cases value with
  | int value => exact plain_ok value
  | nil | text | bool | list | function => exact plain_error (.wrongType _ _)

theorem items_plain (value : Value φ) : Plain (items value) := by
  cases value with
  | list items => exact plain_ok items
  | nil | int | text | bool | function => exact plain_error (.wrongType _ _)

theorem single_plain (arguments : List (Value φ)) : Plain (single arguments) := by
  fun_cases single arguments with
  | case1 argument => exact plain_ok argument
  | case2 => exact plain_error (.wrongArity _ _)

theorem pair_plain (arguments : List (Value φ)) : Plain (pair arguments) := by
  fun_cases pair arguments with
  | case1 left right => exact plain_ok (left, right)
  | case2 => exact plain_error (.wrongArity _ _)

theorem integerPair_plain (arguments : List (Value φ)) : Plain (integerPair arguments) :=
  (pair_plain arguments).bind fun _ =>
    (integer_plain _).bind fun _ => (integer_plain _).bind fun _ => plain_ok _

theorem singleList_plain (arguments : List (Value φ)) : Plain (singleList arguments) :=
  (single_plain arguments).bind items_plain

theorem plus_plain (left right : Value φ) : Plain (plus left right) := by
  fun_cases plus left right with
  | case1 left right => exact (checked_plain _).bind fun _ => plain_ok _
  | case2 | case3 => exact plain_ok _
  | case4 | case5 => exact plain_error (.wrongType _ _)

/-- A builtin function fails because of its arguments only. -/
theorem apply_plain [Callee φ] (builtin : Builtin) (arguments : List (Value φ)) :
    Plain (builtin.apply arguments) := by
  cases builtin with
  | add =>
    cases arguments with
    | nil => exact plain_error (.wrongArity _ _)
    | cons first rest => exact plain_foldlM plus_plain rest first
  | sub =>
    cases arguments with
    | nil => exact plain_error (.wrongArity _ _)
    | cons first rest =>
      apply (integer_plain first).bind
      intro start
      apply (plain_mapM integer_plain rest).bind
      intro others
      exact (plain_foldlM (fun _ _ => checked_plain _) others start).bind fun _ => plain_ok _
  | mul =>
    exact (integerPair_plain arguments).bind fun _ => (checked_plain _).bind fun _ => plain_ok _
  | div =>
    exact (integerPair_plain arguments).bind fun _ =>
      (quotient_plain _ _).bind fun _ => plain_ok _
  | equal | eq | notEqual | ampersand | conj | disj =>
    exact (pair_plain arguments).bind fun _ => plain_ok _
  | neg => exact (single_plain arguments).bind fun _ => plain_ok _
  | less | greater | lessEqual | greaterEqual =>
    exact (integerPair_plain arguments).bind fun _ => plain_ok _
  | car =>
    apply (singleList_plain arguments).bind
    intro items
    cases items with
    | nil => exact plain_error .headOfEmpty
    | cons first rest => exact plain_ok first
  | cons =>
    exact (pair_plain arguments).bind fun _ => (items_plain _).bind fun _ => plain_ok _
  | list => exact plain_ok _
  | cdr | length | isEmpty => exact (singleList_plain arguments).bind fun _ => plain_ok _

end Builtin

/-! ## Evaluation -/

namespace Semantics

/-- No rule changes a fault that it hands on, so every fault comes out as it was raised. -/
theorem Evaluates.raised {α : Type} {task : Task α} {supply : Nat} {outcome : Outcome α}
    (evaluates : Evaluates task supply outcome) {fault : Fault} (failed : outcome = .error fault) :
    fault.Raised := by
  induction evaluates with
  | absent | int | string | symbol | literalList | lambda | formsNil | formsCons | bindingsNil
  | bindingsCons | builtin => cases failed
  | symbolUnbound =>
    cases failed
    exact .unbound _
  | defineMalformed | lambdaMalformed | conditionalMalformed | quoteMalformed | bindingMalformed =>
    cases failed
    exact .malformed _
  | builtinFails applied =>
    cases failed
    exact .builtin _ (Builtin.apply_plain _ _ _ applied)
  | closureArity =>
    cases failed
    exact .closure _ _
  | elementFails _ _ ih | defineBindingFails _ _ ih | conditionFails _ _ ih | formsHeadFails _ ih
  | formsTailFails _ _ _ ih | bindingsHeadFails _ _ ih | bindingsTailFails _ _ _ _ ih =>
    cases failed
    exact ih rfl
  | application _ _ _ _ ih | define _ _ _ _ ih | consequent _ _ _ _ _ ih
  | alternative _ _ _ _ _ ih | quote _ _ ih | closure _ _ ih => exact ih failed

end Semantics

/-! ## Reading -/

namespace Form

theorem readAll_unreadable {source : List Char} {stop : Stop}
    (failed : readAll (Token.tokenize source) = .error stop) :
    ∃ fault, stop = .fault fault ∧ fault.Unreadable := by
  obtain ⟨reader, ran, stops⟩ := Reader.consume_stops (tokenize_named source) [] []
  rw [Reader.readAll_of_consume ran] at failed
  cases stops with
  | @atEnd token ahead pending finished =>
    cases pending with
    | nil => cases failed
    | cons innermost outer =>
      cases failed
      exact ⟨_, rfl, .unexpectedEnd _⟩
  | atToken offence =>
    cases failed
    cases offence with
    | token => exact ⟨_, rfl, .unexpectedToken _⟩
    | literal text => exact ⟨_, rfl, .integerRange text _⟩

/-- A text that is not the text of a single form is unreadable. -/
theorem parse_unreadable {source : List Char} {fault : Fault}
    (failed : parse source = .error (.fault fault)) : fault.Unreadable := by
  rw [parse, readOne] at failed
  split at failed
  next =>
    cases failed
    exact .endOfInput _
  next =>
    cases read : readAll (Token.tokenize source) with
    | error stop =>
      obtain ⟨fault', rfl, unreadable⟩ := readAll_unreadable read
      rw [read] at failed
      cases failed
      exact unreadable
    | ok forms =>
      rw [read] at failed
      rcases forms with - | ⟨form, - | ⟨second, others⟩⟩
      · cases failed
      · cases failed
      · cases failed
        exact .unexpectedToken _

end Form

/-- A program fails as its text is read, or with a fault that evaluation raises. -/
theorem Interpreter.interpret_raises {interpreter : Interpreter} {source : List Char}
    {machine : Machine} {stop : Stop}
    (failed : (interpreter.interpret source machine).1 = .error stop) :
    ∃ fault, stop = .fault fault ∧
      ((fault.Unreadable ∧ Form.parse source = .error (.fault fault)) ∨
        fault.Raised ∧ ∃ form, Form.parse source = .ok form) := by
  rcases Form.parse_cases source with ⟨fault, unread⟩ | ⟨form, accepted⟩
  · rw [interpret_of_unreadable interpreter machine unread] at failed
    cases failed
    exact ⟨fault, rfl, .inl ⟨Form.parse_unreadable unread, unread⟩⟩
  · rw [Semantics.interpret_eq_evaluate accepted] at failed
    obtain ⟨fault, rfl, rfl | answers⟩ := Semantics.evaluate_fails failed
    · exact ⟨_, rfl, .inr ⟨.tooDeep _, form, accepted⟩⟩
    · exact ⟨fault, rfl, .inr ⟨answers.raised rfl, form, accepted⟩⟩

end MiniLisp
