import MiniLisp.Token
import MiniLisp.ValueType
import MiniLisp.SpecialForm

/-!
# Faults

A fault is the reason why a program cannot be read or evaluated.  Faults are causes, not texts: the
wording stands in `Fault.message` alone, and `Fault.kind` names the family that a fault belongs to.
-/

namespace MiniLisp

/-- The number of arguments that a function takes. -/
inductive Arity where
  | exactly (count : Nat)
  | atLeast (count : Nat)
  deriving DecidableEq, Repr

/-- An arity as messages state it. -/
def Arity.describe : Arity → String
  | exactly count => toString count
  | atLeast count => s!"at least {count}"

/-- The reason why reading or evaluation fails. -/
inductive Fault where
  /-- A name is bound in no scope of the chain. -/
  | unbound (name : String)
  /-- A function gets the wrong number of arguments. -/
  | wrongArity (expected : Arity) (got : Nat)
  /-- An argument has the wrong type. -/
  | wrongType (expected got : ValueType)
  /-- The first element of the empty list is asked for. -/
  | headOfEmpty
  /-- A divisor is zero. -/
  | divisionByZero
  /-- A result leaves the range of integers; the exact result is shown where it is known. -/
  | overflow (result : Option Int)
  /-- A special form does not have its shape. -/
  | malformed (form : SpecialForm)
  /-- Evaluations nest deeper than the limit. -/
  | tooDeep (limit : Nat)
  /-- A text holds no form where one is needed. -/
  | endOfInput
  /-- The text ends inside a list. -/
  | unexpectedEnd
  /-- A token cannot stand where it does. -/
  | unexpectedToken
  /-- An integer literal leaves the range of integers. -/
  | integerRange (literal : String)
  /-- A token that is neither an atom nor a string stands for no form. -/
  | notAnAtom (token : Token)
  /-- A form that is not a list cannot be extended. -/
  | notAList
  /-- A host value has no counterpart in the language. -/
  | invalidValue (text : String)
  /-- A failure outside the language, in the words of whoever reports it. -/
  | external (text : String)
  /-- Reading fails because of a cause, at a token if one is to blame. -/
  | reading (cause : Fault) (token : Option Token)
  /-- The call of a function fails because of a cause. -/
  | application (callee : String) (cause : Fault)
  deriving DecidableEq, Repr

/-- What lies at the bottom of a fault, however many calls it passed through. -/
inductive Cause where
  | unboundIdentifier
  | arity
  | type
  | range
  | divisionByZero
  | overflow
  | malformed
  | recursionDepth
  | endOfInput
  | unexpectedEnd
  | unexpectedToken
  | integerRange
  | notAnAtom
  deriving DecidableEq, Repr

/-- The families under which faults are reported. -/
inductive FaultKind where
  | parse
  | lookup
  | range
  | form
  | application
  | runtime
  deriving DecidableEq, Repr

/-- The name of a family of faults. -/
def FaultKind.name : FaultKind → String
  | parse => "ParseError"
  | lookup => "LookupError"
  | range => "RangeError"
  | form => "FormError"
  | application => "ApplicationError"
  | runtime => "RuntimeError"

namespace Fault

/-- The words in which a fault is reported. -/
def message : Fault → String
  | unbound name => s!"unbound identifier: {name}"
  | wrongArity expected got =>
    s!"wrong number of arguments: expected {expected.describe}, got {got}"
  | wrongType expected got =>
    s!"wrong type of argument: expected {expected.name}, got {got.name}"
  | headOfEmpty => "index out of range: car of empty list"
  | divisionByZero => "division by zero"
  | overflow none => "integer overflow"
  | overflow (some result) => s!"integer overflow: {result}"
  | malformed form => s!"{form.name}: malformed special form, expected {form.usage}"
  | tooDeep limit => s!"maximum recursion depth exceeded ({limit})"
  | endOfInput => "EOF"
  | unexpectedEnd => "unexpected EOF"
  | unexpectedToken => "unexpected token"
  | integerRange literal => s!"integer literal out of range: {literal}"
  | notAnAtom token => s!"token is not an atom: {token.render}"
  | notAList => "nodes of type value can't accept children"
  | invalidValue text => s!"invalid value {text}"
  | external text => text
  | reading cause none => s!"parse error: {cause.message}"
  | reading cause (some token) =>
    s!"parse error: {cause.message} {Text.quoted token.text} at " ++
      s!"{token.position.line}:{token.position.column}"
  | application callee cause => s!"{callee}: {cause.message}"

/-- The cause at the bottom of a fault; failures from outside the language have none. -/
def cause? : Fault → Option Cause
  | unbound _ => some .unboundIdentifier
  | wrongArity _ _ => some .arity
  | wrongType _ _ => some .type
  | headOfEmpty => some .range
  | divisionByZero => some .divisionByZero
  | overflow _ => some .overflow
  | malformed _ => some .malformed
  | tooDeep _ => some .recursionDepth
  | endOfInput => some .endOfInput
  | unexpectedEnd => some .unexpectedEnd
  | unexpectedToken => some .unexpectedToken
  | integerRange _ => some .integerRange
  | notAnAtom _ => some .notAnAtom
  | notAList | invalidValue _ | external _ => none
  | reading cause _ => cause.cause?
  | application _ cause => cause.cause?

/-- Whether a fault arose while reading a program. -/
def isReading : Fault → Bool
  | reading _ _ => true
  | application _ cause => cause.isReading
  | _ => false

/-- Whether a fault passed through the call of a function. -/
def isApplication : Fault → Bool
  | application _ _ => true
  | reading cause _ => cause.isApplication
  | _ => false

/-- The family of a fault.  Reading wins over every cause, an unbound name, an empty list and a
malformed form win over the call they occur in, and what no call raised is a runtime fault. -/
def kind (fault : Fault) : FaultKind :=
  if fault.isReading then .parse
  else if fault.cause? = some .unboundIdentifier then .lookup
  else if fault.cause? = some .range then .range
  else if fault.cause? = some .malformed then .form
  else if fault.isApplication then .application
  else .runtime

/-- A fault on one line, as it is shown to a user. -/
def report (fault : Fault) : String :=
  s!"{fault.kind.name}: {fault.message}"

end Fault

/-- A request that the program does not answer, because what it asks for does not exist. -/
inductive Misuse where
  /-- An atom without text has no form. -/
  | emptyAtom
  /-- One form is read from tokens that end before the first one. -/
  | noForm
  /-- A value is taken for one of another type. -/
  | wrongAccess
  /-- A value that is not a function is called. -/
  | notCallable
  /-- An absent form is extended. -/
  | absentForm
  /-- A name stands for nothing that the host has stored. -/
  | unknownName
  deriving DecidableEq, Repr

/-- Why an operation comes back without a result. -/
inductive Stop where
  | fault (reason : Fault)
  | misuse (reason : Misuse)
  /-- The fuel of an evaluation ran out before its result was known. -/
  | exhausted
  deriving DecidableEq, Repr

/-- The fault behind a stop, if it is one. -/
def Stop.fault? : Stop → Option Fault
  | .fault reason => some reason
  | _ => none

end MiniLisp
