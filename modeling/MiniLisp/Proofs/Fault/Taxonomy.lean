import MiniLisp.Proofs.Fault.Raised

/-!
# The families of faults

A fault may wrap another one, and what lies at its bottom is found by looking through all layers.
The faults of programs have exactly one cause, which decides the family; a fault of reading is in a
family of its own; and the call of a function is never reported inside another fault.
-/

namespace MiniLisp

/-- The family under which a cause is reported. -/
def Cause.family : Cause → FaultKind
  | unboundIdentifier => .lookup
  | malformed => .form
  | range => .range
  | arity | type | divisionByZero | overflow => .application
  | recursionDepth | notAnAtom => .runtime
  | endOfInput | unexpectedEnd | unexpectedToken | integerRange => .parse

namespace Fault

/-- A fault and all that it wraps, from the outside in. -/
def layers : Fault → List Fault
  | reading cause token => reading cause token :: cause.layers
  | application callee cause => application callee cause :: cause.layers
  | fault => [fault]

/-- The cause that a layer states by itself: none where it only wraps another fault. -/
def stated? : Fault → Option Cause
  | reading _ _ | application _ _ => none
  | fault => fault.cause?

/-- A fault is of a cause if one of its layers states it. -/
def Is (fault : Fault) (cause : Cause) : Prop :=
  ∃ layer ∈ fault.layers, layer.stated? = some cause

/-- Only the innermost layer states a cause. -/
theorem is_iff {fault : Fault} {cause : Cause} : fault.Is cause ↔ fault.cause? = some cause := by
  induction fault with
  | reading inner token ih =>
    rw [cause?, ← ih]
    simp [Is, layers, stated?]
  | application callee inner ih =>
    rw [cause?, ← ih]
    simp [Is, layers, stated?]
  | _ => simp [Is, layers, stated?, cause?]

/-- A fault has one cause, and its family is that of the cause.  If it reports the call of a
function, then on its outside, and the function is a builtin function or a closure. -/
structure Classified (fault : Fault) : Prop where
  cause : ∃ cause, cause ≠ .notAnAtom ∧ ∀ other, fault.Is other ↔ other = cause
  lookup : fault.kind = .lookup ↔ fault.Is .unboundIdentifier
  form : fault.kind = .form ↔ fault.Is .malformed
  range : fault.kind = .range ↔ fault.Is .range
  application : fault.kind = .application ↔
    fault.Is .arity ∨ fault.Is .type ∨ fault.Is .divisionByZero ∨ fault.Is .overflow
  runtime : fault.kind = .runtime ↔ fault.Is .recursionDepth
  parse : fault.kind = .parse ↔
    fault.Is .endOfInput ∨ fault.Is .unexpectedEnd ∨ fault.Is .unexpectedToken ∨
      fault.Is .integerRange
  callee : ∀ callee inner, Fault.application callee inner ∈ fault.layers →
    callee = "lambda" ∨ ∃ builtin : Builtin, callee = builtin.name
  outermost : ∀ callee inner, Fault.application callee inner ∈ fault.layers →
    fault = .application callee inner

/-- All about a fault follows from its cause, its family and its layers. -/
theorem classified_of_cause {fault : Fault} {cause : Cause} (found : fault.cause? = some cause)
    (proper : cause ≠ .notAnAtom) (kind : fault.kind = cause.family)
    (callee : ∀ callee inner, Fault.application callee inner ∈ fault.layers →
      callee = "lambda" ∨ ∃ builtin : Builtin, callee = builtin.name)
    (outermost : ∀ callee inner, Fault.application callee inner ∈ fault.layers →
      fault = .application callee inner) : fault.Classified := by
  have only : ∀ other, fault.Is other ↔ other = cause := by
    intro other
    rw [is_iff, found, Option.some.injEq, eq_comm]
  refine ⟨⟨cause, proper, only⟩, ?_, ?_, ?_, ?_, ?_, ?_, callee, outermost⟩
  all_goals
    simp only [only, kind]
    revert proper
    cases cause <;> decide

/-- The call of a function that fails because of its arguments is reported once. -/
theorem Elementary.classified {cause : Fault} (elementary : cause.Elementary) {name : String}
    (known : name = Procedure.closureName ∨ ∃ builtin : Builtin, name = builtin.name) :
    (application name cause).Classified := by
  have single : (application name cause).layers = [application name cause, cause] := by
    cases elementary <;> rfl
  have bare : ∀ callee inner, cause ≠ application callee inner := by
    cases elementary <;> nofun
  have reported : ∀ callee inner, application callee inner ∈ (application name cause).layers →
      application name cause = application callee inner := by
    intro callee inner member
    rw [single, List.mem_cons, List.mem_singleton] at member
    obtain outside | inside := member
    · exact outside.symm
    · exact absurd inside.symm (bare callee inner)
  have named : ∀ callee inner, application callee inner ∈ (application name cause).layers →
      callee = "lambda" ∨ ∃ builtin : Builtin, callee = builtin.name := by
    intro callee inner member
    cases reported callee inner member
    exact known
  cases elementary with
  | wrongArity | wrongType | headOfEmpty | divisionByZero | overflow =>
    exact classified_of_cause rfl nofun rfl named reported

theorem Raised.classified {fault : Fault} (raised : fault.Raised) : fault.Classified := by
  cases raised with
  | unbound | malformed | tooDeep =>
    exact classified_of_cause rfl nofun rfl (by simp [layers]) (by simp [layers])
  | builtin operation elementary => exact elementary.classified (.inr ⟨operation, rfl⟩)
  | closure expected got => exact Elementary.classified (.wrongArity expected got) (.inl rfl)

theorem Unreadable.classified {fault : Fault} (unreadable : fault.Unreadable) :
    fault.Classified := by
  cases unreadable with
  | endOfInput | unexpectedEnd | unexpectedToken | integerRange =>
    exact classified_of_cause rfl nofun rfl (by simp [layers]) (by simp [layers])

theorem Unreadable.kind_eq {fault : Fault} (unreadable : fault.Unreadable) :
    fault.kind = .parse := by
  cases unreadable <;> rfl

theorem Raised.kind_ne {fault : Fault} (raised : fault.Raised) : fault.kind ≠ .parse := by
  cases raised with
  | unbound | malformed | tooDeep | closure => nofun
  | builtin operation elementary => cases elementary <;> nofun

end Fault

namespace Interpreter

/-- Every program that fails does so with a fault of exactly one cause, which decides the family of
the fault; and the family is that of reading exactly if the text of the program cannot be read. -/
theorem interpret_fault_classified (interpreter : Interpreter) (source : List Char)
    (machine : Machine) {stop : Stop}
    (failed : (interpreter.interpret source machine).1 = .error stop) :
    ∃ fault, stop = .fault fault ∧ fault.Classified ∧
      (fault.kind = .parse ↔ ∃ unread, Form.parse source = .error unread) := by
  obtain ⟨fault, rfl, ⟨unreadable, unread⟩ | ⟨raised, form, accepted⟩⟩ := interpret_raises failed
  · exact ⟨fault, rfl, unreadable.classified, iff_of_true unreadable.kind_eq ⟨_, unread⟩⟩
  · refine ⟨fault, rfl, raised.classified, iff_of_false raised.kind_ne ?_⟩
    rintro ⟨unread, refused⟩
    rw [accepted] at refused
    cases refused

/-- A division by zero in the body of a closure is reported as the failure of the division alone. -/
theorem interpret_fault_classified_division :
    let source := "((lambda (x) (div x 0)) 1)".toList
    let fault := Fault.application "div" .divisionByZero
    ((Interpreter.mk 7 none).interpret source Machine.empty).1 = .error (.fault fault) ∧
      fault.Classified ∧ (fault.kind = .parse ↔ ∃ unread, Form.parse source = .error unread) := by
  intro source fault
  have divided : ((Interpreter.mk 7 none).interpret source Machine.empty).1 =
      .error (.fault fault) := by
    rw [Semantics.interpret_eq_evaluate rfl]
    exact Semantics.evaluate_of_fault rfl Machine.empty
  obtain ⟨_, ⟨⟩, classified⟩ := interpret_fault_classified _ _ _ divided
  exact ⟨divided, classified⟩

end Interpreter

end MiniLisp
