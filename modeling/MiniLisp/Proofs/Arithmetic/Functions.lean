import MiniLisp.Proofs.Arithmetic.Exactness

/-!
# Differences, products and quotients

Three builtin functions take integers only.  They ask for the number of their arguments first, for
the types next and for the values last, and what they come to is exact: a result that is no integer
of the language is a fault, and never another integer.
-/

namespace MiniLisp

/-- An arity admits a number of arguments. -/
def Arity.Admits : Arity → Nat → Prop
  | exactly count, given => given = count
  | atLeast count, given => count ≤ given

instance (arity : Arity) (given : Nat) : Decidable (arity.Admits given) :=
  match arity with
  | .exactly count => inferInstanceAs (Decidable (given = count))
  | .atLeast count => inferInstanceAs (Decidable (count ≤ given))

namespace Arithmetic

/-- A builtin function of integers.  The number of arguments is asked for before their types, the
first argument that is no integer is reported before any value is looked at, and every result is an
integer of the language. -/
structure OnIntegers (φ : Type) [Callee φ] (builtin : Builtin) (arity : Arity) : Prop where
  checksArity : ∀ arguments : List (Value φ), ¬arity.Admits arguments.length →
    builtin.apply arguments = .error (.wrongArity arity arguments.length)
  checksTypes : ∀ (before : List (Value φ)) (argument : Value φ) (after : List (Value φ)),
    arity.Admits (before ++ argument :: after).length →
      (∀ other ∈ before, other.type = .int) → argument.type ≠ .int →
        builtin.apply (before ++ argument :: after) = .error (.wrongType .int argument.type)
  staysInRange : ∀ (arguments : List (Value φ)) (result : Value φ),
    builtin.apply arguments = .ok result → ∃ value : Int64, result = .int value ∧ Fits value.toInt

/-- The exact difference of integers, taken from the left. -/
def difference (first : Int64) (rest : List Int64) : Int :=
  (rest.map Int64.toInt).foldl (fun left right => left - right) first.toInt

/-- No difference on the way leaves the range. -/
def KeepsRange (first : Int64) (rest : List Int64) : Prop :=
  ∀ count, count ≤ rest.length → Fits (difference first (rest.take count))

/-- A difference leaves the range for the first time when `count` integers are subtracted. -/
structure LeavesRange (first : Int64) (rest : List Int64) (count : Nat) : Prop where
  inside : count ≤ rest.length
  unfit : ¬Fits (difference first (rest.take count))
  least : ∀ earlier, earlier < count → Fits (difference first (rest.take earlier))

variable {φ : Type} {outcome : Except Fault (Value φ)} {result : Int} {fault : Fault}

/-- The outcome is an integer of the language, which is the exact result. -/
def Yields (outcome : Except Fault (Value φ)) (result : Int) : Prop :=
  ∃ value : Int64, outcome = .ok (.int value) ∧ value.toInt = result

/-- The outcome is the exact result if that is an integer of the language, and a fault otherwise. -/
structure ExactOr (result : Int) (fault : Fault) (outcome : Except Fault (Value φ)) : Prop where
  value : Yields outcome result ↔ Fits result
  overflow : outcome = .error fault ↔ ¬Fits result

/-- The outcome is the exact difference if no difference on the way leaves the range, and shows the
first one that does otherwise. -/
structure ExactDifference (first : Int64) (rest : List Int64) (outcome : Except Fault (Value φ)) :
    Prop where
  value : Yields outcome (difference first rest) ↔ KeepsRange first rest
  overflow : ¬KeepsRange first rest → ∃ count, LeavesRange first rest count ∧
    outcome = .error (.overflow (some (difference first (rest.take count))))

/-- A quotient cut off toward zero: what it leaves over is smaller than the divisor, and has the
sign of the dividend unless it is zero. -/
structure Truncates (dividend divisor quotient : Int) : Prop where
  small : (dividend - quotient * divisor).natAbs < divisor.natAbs
  sign : dividend - quotient * divisor = 0 ∨
    (dividend - quotient * divisor).sign = dividend.sign

/-- The outcome is the quotient cut off toward zero, if there is one and it is an integer of the
language. -/
structure ExactQuotient (left right : Int64) (outcome : Except Fault (Value φ)) : Prop where
  zero : outcome = .error .divisionByZero ↔ right = 0
  exists_quotient : right ≠ 0 → ∃ quotient, Truncates left.toInt right.toInt quotient
  unique : ∀ quotient quotient', Truncates left.toInt right.toInt quotient →
    Truncates left.toInt right.toInt quotient' → quotient = quotient'
  exactOr : ∀ quotient, Truncates left.toInt right.toInt quotient →
    ExactOr quotient (.overflow none) outcome

theorem not_yields_error : ¬Yields (.error fault : Except Fault (Value φ)) result := by
  rintro ⟨value, ⟨⟩, _⟩

theorem exactOr_of_fits (fits : Fits result)
    (returned : outcome = .ok (.int (Int64.ofInt result))) : ExactOr result fault outcome := by
  refine ⟨iff_of_true ⟨_, returned, fits.toInt_ofInt⟩ fits, iff_of_false ?_ (not_not_intro fits)⟩
  intro failed
  cases returned.symm.trans failed

theorem exactOr_of_not_fits (unfit : ¬Fits result) (failed : outcome = .error fault) :
    ExactOr result fault outcome := by
  refine ⟨iff_of_false ?_ unfit, iff_of_true failed unfit⟩
  rw [failed]
  exact not_yields_error

/-- An exact outcome fails in one way only. -/
theorem ExactOr.fault_eq {fault' : Fault} (exactOr : ExactOr result fault outcome)
    (failed : outcome = .error fault') : fault' = fault := by
  by_cases fits : Fits result
  · have yields := exactOr.value.mpr fits
    rw [failed] at yields
    exact absurd yields not_yields_error
  · have expected := exactOr.overflow.mpr fits
    exact Except.error.inj (failed.symm.trans expected)

/-! ## Arity and types -/

section Checks

variable {before after : List (Value φ)} {argument : Value φ}

theorem integer_of_type_ne (notInteger : argument.type ≠ .int) :
    Builtin.integer argument = .error (.wrongType .int argument.type) := by
  cases argument with
  | int => exact absurd rfl notInteger
  | nil | text | bool | list | function => rfl

theorem exists_of_type_eq (isInteger : argument.type = .int) :
    ∃ value, argument = .int value := by
  cases argument with
  | int value => exact ⟨value, rfl⟩
  | nil | text | bool | list | function => cases isInteger

/-- The first argument that is no integer is reported. -/
theorem mapM_integer_first (integers : ∀ other ∈ before, other.type = .int)
    (notInteger : argument.type ≠ .int) :
    (before ++ argument :: after).mapM Builtin.integer =
      .error (.wrongType .int argument.type) := by
  induction before with
  | nil =>
    rw [List.nil_append, List.mapM_cons, integer_of_type_ne notInteger]
    rfl
  | cons other before ih =>
    obtain ⟨isInteger, others⟩ := List.forall_mem_cons.mp integers
    obtain ⟨value, rfl⟩ := exists_of_type_eq isInteger
    rw [List.cons_append, List.mapM_cons, ih others]
    rfl

theorem integerPair_of_length_ne {arguments : List (Value φ)} (wrong : arguments.length ≠ 2) :
    Builtin.integerPair arguments = .error (.wrongArity (.exactly 2) arguments.length) := by
  match arguments with
  | [_, _] => exact absurd rfl wrong
  | [] | [_] | _ :: _ :: _ :: _ => rfl

theorem integerPair_first (two : (before ++ argument :: after).length = 2)
    (integers : ∀ other ∈ before, other.type = .int) (notInteger : argument.type ≠ .int) :
    Builtin.integerPair (before ++ argument :: after) =
      .error (.wrongType .int argument.type) := by
  rw [List.length_append, List.length_cons] at two
  cases before with
  | nil =>
    obtain ⟨other, rfl⟩ := List.length_eq_one_iff.mp (by simpa using two)
    change (do return (← Builtin.integer argument, ← Builtin.integer other)) = _
    rw [integer_of_type_ne notInteger]
    rfl
  | cons other before =>
    rw [List.length_cons] at two
    obtain rfl : before = [] := List.eq_nil_of_length_eq_zero (by omega)
    obtain rfl : after = [] := List.eq_nil_of_length_eq_zero (by omega)
    obtain ⟨value, rfl⟩ := exists_of_type_eq (integers other List.mem_cons_self)
    change (do return (value, ← Builtin.integer argument)) = _
    rw [integer_of_type_ne notInteger]
    rfl

theorem exists_of_return {action : Except Fault Int64} {result : Value φ}
    (returned : (do return Value.int (← action)) = Except.ok result) :
    ∃ value : Int64, result = .int value ∧ Fits value.toInt := by
  cases action with
  | error fault => cases returned
  | ok value => exact ⟨value, (Except.ok.inj returned).symm, fits_toInt value⟩

theorem sub_onIntegers [Callee φ] : OnIntegers φ .sub (.atLeast 1) := by
  refine ⟨?_, ?_, ?_⟩
  · intro arguments few
    cases arguments with
    | nil => rfl
    | cons first rest => exact absurd (Nat.succ_pos rest.length) few
  · intro before argument after _ integers notInteger
    cases before with
    | nil =>
      rw [List.nil_append, Builtin.apply, integer_of_type_ne notInteger]
      rfl
    | cons first before =>
      obtain ⟨isInteger, others⟩ := List.forall_mem_cons.mp integers
      obtain ⟨value, rfl⟩ := exists_of_type_eq isInteger
      rw [List.cons_append, Builtin.apply, mapM_integer_first others notInteger]
      rfl
  · intro arguments result applied
    cases arguments with
    | nil => cases applied
    | cons first rest =>
      rw [Builtin.apply] at applied
      cases first? : Builtin.integer first with
      | error fault =>
        rw [first?] at applied
        cases applied
      | ok value =>
        cases rest? : rest.mapM Builtin.integer with
        | error fault =>
          rw [first?, rest?] at applied
          cases applied
        | ok values =>
          rw [first?, rest?] at applied
          exact exists_of_return applied

/-- A function that takes two integers out of its arguments asks for both before it goes on. -/
theorem onIntegers_of_pair [Callee φ] {builtin : Builtin}
    (operation : Int64 → Int64 → Except Fault Int64)
    (defined : ∀ arguments : List (Value φ), builtin.apply arguments = do
      let (left, right) ← Builtin.integerPair arguments
      return .int (← operation left right)) : OnIntegers φ builtin (.exactly 2) := by
  refine ⟨?_, ?_, ?_⟩
  · intro arguments wrong
    rw [defined, integerPair_of_length_ne wrong]
    rfl
  · intro before argument after two integers notInteger
    rw [defined, integerPair_first two integers notInteger]
    rfl
  · intro arguments result applied
    rw [defined] at applied
    cases pair? : Builtin.integerPair arguments with
    | error fault =>
      rw [pair?] at applied
      cases applied
    | ok pair =>
      rw [pair?] at applied
      exact exists_of_return applied

end Checks

/-! ## Differences -/

section Step

variable {first next value : Int64} (exact : value.toInt = first.toInt - next.toInt)
include exact

theorem difference_cons (rest : List Int64) :
    difference first (next :: rest) = difference value rest := by
  rw [difference, difference, List.map_cons, List.foldl_cons, exact]

theorem KeepsRange.cons {rest : List Int64} (keeps : KeepsRange value rest) :
    KeepsRange first (next :: rest) := by
  intro count inside
  cases count with
  | zero => exact fits_toInt first
  | succ count =>
    rw [List.take_succ_cons, difference_cons exact]
    exact keeps count (Nat.le_of_succ_le_succ inside)

theorem LeavesRange.cons {rest : List Int64} {count : Nat} (leaves : LeavesRange value rest count) :
    LeavesRange first (next :: rest) (count + 1) := by
  refine ⟨Nat.succ_le_succ leaves.inside, ?_, ?_⟩
  · rw [List.take_succ_cons, difference_cons exact]
    exact leaves.unfit
  · intro earlier before
    cases earlier with
    | zero => exact fits_toInt first
    | succ earlier =>
      rw [List.take_succ_cons, difference_cons exact]
      exact leaves.least earlier (Nat.lt_of_succ_lt_succ before)

end Step

/-- Integers are subtracted one by one, until a difference leaves the range. -/
theorem foldlM_minus (first : Int64) (rest : List Int64) :
    (∃ value : Int64, rest.foldlM Builtin.minus first = .ok value ∧
        value.toInt = difference first rest ∧ KeepsRange first rest) ∨
      ∃ count, LeavesRange first rest count ∧
        rest.foldlM Builtin.minus first =
          .error (.overflow (some (difference first (rest.take count)))) := by
  induction rest generalizing first with
  | nil =>
    refine .inl ⟨first, rfl, rfl, ?_⟩
    intro count _
    rw [List.take_nil]
    exact fits_toInt first
  | cons next rest ih =>
    rw [List.foldlM_cons, Builtin.minus]
    by_cases fits : Fits (first.toInt - next.toInt)
    · have exact := fits.toInt_ofInt
      rw [checked_of_fits fits]
      rcases ih (Int64.ofInt (first.toInt - next.toInt)) with
        ⟨value, found, total, keeps⟩ | ⟨count, leaves, failed⟩
      · rw [← difference_cons exact] at total
        exact .inl ⟨value, found, total, keeps.cons exact⟩
      · rw [← difference_cons exact, ← List.take_succ_cons] at failed
        exact .inr ⟨count + 1, leaves.cons exact, failed⟩
    · rw [checked_of_not_fits fits]
      refine .inr ⟨1, ⟨Nat.succ_pos _, fits, ?_⟩, rfl⟩
      intro earlier before
      obtain rfl := Nat.lt_one_iff.mp before
      exact fits_toInt first

theorem sub_exactDifference [Callee φ] (first : Int64) (rest : List Int64) :
    ExactDifference first rest
      (Builtin.sub.apply (.int first :: rest.map .int : List (Value φ))) := by
  have applied : Builtin.sub.apply (.int first :: rest.map .int : List (Value φ)) = do
      return .int (← rest.foldlM Builtin.minus first) := by
    rw [Builtin.apply, Operator.mapM_integer]
    rfl
  rw [applied]
  rcases foldlM_minus first rest with ⟨value, found, total, keeps⟩ | ⟨count, leaves, failed⟩
  · rw [found]
    exact ⟨iff_of_true ⟨value, rfl, total⟩ keeps, fun broken => absurd keeps broken⟩
  · rw [failed]
    refine ⟨iff_of_false not_yields_error ?_, fun _ => ⟨count, leaves, rfl⟩⟩
    intro keeps
    exact leaves.unfit (keeps count leaves.inside)

/-! ## Products and quotients -/

theorem mul_exactOr [Callee φ] (left right : Int64) :
    ExactOr (left.toInt * right.toInt) (.overflow (some (left.toInt * right.toInt)))
      (Builtin.mul.apply [.int left, .int right] : Except Fault (Value φ)) := by
  have applied : (Builtin.mul.apply [.int left, .int right] : Except Fault (Value φ)) = do
      return .int (← Builtin.checked (left.toInt * right.toInt)) := rfl
  by_cases fits : Fits (left.toInt * right.toInt)
  · rw [checked_of_fits fits] at applied
    exact exactOr_of_fits fits applied
  · rw [checked_of_not_fits fits] at applied
    exact exactOr_of_not_fits fits applied

theorem truncates_tdiv {divisor : Int} (nonzero : divisor ≠ 0) (dividend : Int) :
    Truncates dividend divisor (dividend.tdiv divisor) := by
  have remainder : dividend - dividend.tdiv divisor * divisor = dividend.tmod divisor := by
    rw [Int.tmod_def, Int.mul_comm]
  constructor
  · rw [remainder, Int.natAbs_tmod]
    exact Nat.mod_lt _ (Int.natAbs_pos.mpr nonzero)
  · rw [remainder, Int.sign_tmod]
    by_cases divides : divisor ∣ dividend
    · exact .inl (Int.tmod_eq_zero_of_dvd divides)
    · exact .inr (if_neg divides)

namespace Truncates

variable {dividend divisor quotient : Int} (truncates : Truncates dividend divisor quotient)
include truncates

theorem divisor_ne_zero : divisor ≠ 0 := by
  rintro rfl
  exact Nat.not_lt_zero _ truncates.small

/-- The size and the sign of what is left over determine the quotient. -/
theorem eq_tdiv : quotient = dividend.tdiv divisor := by
  have small := truncates.small
  have parts : dividend - quotient * divisor + divisor * quotient = dividend := by
    rw [Int.mul_comm divisor, Int.sub_add_cancel]
  rcases Int.le_total 0 dividend with positive | negative
  · have remains : 0 ≤ dividend - quotient * divisor := by
      rcases truncates.sign with zero | same
      · exact Int.le_of_eq zero.symm
      · rwa [← Int.sign_nonneg_iff, same, Int.sign_nonneg_iff]
    have found := (Int.tdiv_tmod_unique positive truncates.divisor_ne_zero).mpr
      ⟨parts, remains, by omega⟩
    exact found.1.symm
  · have remains : dividend - quotient * divisor ≤ 0 := by
      rcases truncates.sign with zero | same
      · exact Int.le_of_eq zero
      · rwa [← Int.sign_nonpos_iff, same, Int.sign_nonpos_iff]
    have found := (Int.tdiv_tmod_unique' negative truncates.divisor_ne_zero).mpr
      ⟨parts, by omega, remains⟩
    exact found.1.symm

end Truncates

theorem div_exactOr [Callee φ] {left right : Int64} (nonzero : right ≠ 0) :
    ExactOr (left.toInt.tdiv right.toInt) (.overflow none)
      (Builtin.div.apply [.int left, .int right] : Except Fault (Value φ)) := by
  have applied : (Builtin.div.apply [.int left, .int right] : Except Fault (Value φ)) = do
      return .int (← Builtin.quotient left right) := rfl
  rw [Builtin.quotient, if_neg nonzero, fit?_eq] at applied
  by_cases fits : Fits (left.toInt.tdiv right.toInt)
  · rw [if_pos fits] at applied
    exact exactOr_of_fits fits applied
  · rw [if_neg fits] at applied
    exact exactOr_of_not_fits fits applied

theorem div_exactQuotient [Callee φ] (left right : Int64) :
    ExactQuotient left right
      (Builtin.div.apply [.int left, .int right] : Except Fault (Value φ)) := by
  refine ⟨?_, ?_, ?_, ?_⟩
  · constructor
    · intro failed
      by_cases zero : right = 0
      · exact zero
      · cases (div_exactOr zero).fault_eq failed
    · rintro rfl
      rfl
  · intro nonzero
    exact ⟨_, truncates_tdiv (mt toInt_eq_zero_iff.mp nonzero) left.toInt⟩
  · intro quotient quotient' truncates truncates'
    rw [truncates.eq_tdiv, truncates'.eq_tdiv]
  · intro quotient truncates
    obtain rfl := truncates.eq_tdiv
    exact div_exactOr (mt toInt_eq_zero_iff.mpr truncates.divisor_ne_zero)

/-! ## The three functions -/

/-- Subtraction, multiplication and division are exact or fail.  They ask for the number of their
arguments, then for their types and last for their values, and never come to an integer out of
range. -/
theorem integer_functions_exact [Callee φ] :
    OnIntegers φ .sub (.atLeast 1) ∧ OnIntegers φ .mul (.exactly 2) ∧
      OnIntegers φ .div (.exactly 2) ∧
      (∀ first rest, ExactDifference first rest
        (Builtin.sub.apply (.int first :: rest.map .int : List (Value φ)))) ∧
      (∀ left right : Int64,
        ExactOr (left.toInt * right.toInt) (.overflow (some (left.toInt * right.toInt)))
          (Builtin.mul.apply [.int left, .int right] : Except Fault (Value φ))) ∧
      ∀ left right, ExactQuotient left right
        (Builtin.div.apply [.int left, .int right] : Except Fault (Value φ)) :=
  ⟨sub_onIntegers, onIntegers_of_pair Builtin.times fun _ => rfl,
    onIntegers_of_pair Builtin.quotient fun _ => rfl, sub_exactDifference, mul_exactOr,
    div_exactQuotient⟩

/-- The text behind a difference out of range is reported first, and the smallest integer divided
by minus one is out of range. -/
theorem integer_functions_exact_smallest :
    let smallest : Datum := .int (-9223372036854775808)
    Builtin.sub.apply [smallest, .int 1, .text "behind"] = .error (.wrongType .int .text) ∧
      Truncates (-9223372036854775808) (-1) 9223372036854775808 ∧
      Builtin.div.apply [smallest, .int (-1)] = .error (.overflow none) := by
  intro smallest
  obtain ⟨sub, -, -, -, -, div⟩ := @integer_functions_exact Procedure _
  have truncates : Truncates (-9223372036854775808) (-1) 9223372036854775808 :=
    ⟨by decide, by decide⟩
  refine ⟨?_, truncates, ?_⟩
  · refine sub.checksTypes [smallest, .int 1] (.text "behind") [] (by decide) ?_ (by decide)
    exact List.forall_mem_cons.mpr ⟨rfl, List.forall_mem_singleton.mpr rfl⟩
  · have exactOr := (div (-9223372036854775808) (-1)).exactOr _ truncates
    exact exactOr.overflow.mpr (by decide)

end Arithmetic

end MiniLisp
