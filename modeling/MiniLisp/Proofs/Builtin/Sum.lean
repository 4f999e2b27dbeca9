import MiniLisp.Procedure
import MiniLisp.Proofs.Arithmetic.Expression

/-!
# Sums

A sum folds its arguments from the left: integers are added up exactly, texts and lists are put one
behind the other.  All arguments must have one type, and no sum of the first of them may leave the
range of integers.  The first argument that breaks this decides how the sum fails.
-/

namespace MiniLisp

open Arithmetic (Fits)

variable {φ : Type}

/-- The integer that a value holds; zero for a value that holds none. -/
def Value.exact : Value φ → Int
  | .int value => value.toInt
  | _ => 0

namespace Builtin

/-- The types whose values can be added up. -/
def Summable (type : ValueType) : Prop :=
  type = .int ∨ type = .text ∨ type = .list

/-- The exact sum of the integers that some values hold. -/
def exactSum : List (Value φ) → Int
  | [] => 0
  | first :: rest => first.exact + exactSum rest

/-- The arguments behind the first one can be added to it: they have its type, which is one of
those that can be added up, and integers never leave their range on the way. -/
structure Addable (first : Value φ) (rest : List (Value φ)) : Prop where
  alike : ∀ argument ∈ rest, argument.type = first.type
  summable : Summable first.type
  inRange : first.type = .int → ∀ count, count ≤ rest.length →
    Fits (exactSum (first :: rest.take count))

/-- The value that arguments of one type add up to. -/
inductive Total (arguments : List (Value φ)) : Value φ → Prop where
  | integers {values : List Int64} {total : Int64} (given : arguments = values.map .int)
      (exact : total.toInt = exactSum arguments) : Total arguments (.int total)
  | texts {values : List String} (given : arguments = values.map .text) :
      Total arguments (.text (String.join values))
  | lists {values : List (List (Value φ))} (given : arguments = values.map .list) :
      Total arguments (.list values.flatten)

/-- The argument at an index behind the first one cannot be added to those in front of it, for the
reason that a fault names. -/
inductive Breaks (first : Value φ) (rest : List (Value φ)) (index : Nat) : Fault → Prop where
  | differs {argument : Value φ} (found : rest[index]? = some argument)
      (unlike : argument.type ≠ first.type) :
      Breaks first rest index (.wrongType first.type argument.type)
  | unsummable {argument : Value φ} (found : rest[index]? = some argument)
      (alike : argument.type = first.type) (unsummable : ¬Summable first.type) :
      Breaks first rest index (.wrongType .int first.type)
  | leaves {argument : Value φ} (found : rest[index]? = some argument)
      (alike : argument.type = first.type) (integers : first.type = .int)
      (unfit : ¬Fits (exactSum (first :: rest.take (index + 1)))) :
      Breaks first rest index (.overflow (some (exactSum (first :: rest.take (index + 1)))))

/-- No argument in front of the one that breaks the sum does so. -/
structure FirstBreak (first : Value φ) (rest : List (Value φ)) (index : Nat) (fault : Fault) :
    Prop where
  breaks : Breaks first rest index fault
  least : ∀ earlier, earlier < index → ∀ fault', ¬Breaks first rest earlier fault'

variable {first second joined : Value φ} {rest : List (Value φ)} {index : Nat} {fault : Fault}

/-! ## Breaking a sum -/

theorem Addable.not_breaks (addable : Addable first rest) : ¬Breaks first rest index fault := by
  intro breaks
  cases breaks with
  | differs found unlike => exact unlike (addable.alike _ (List.mem_of_getElem? found))
  | unsummable _ _ unsummable => exact unsummable addable.summable
  | leaves found _ integers unfit =>
    have inside := (List.getElem?_eq_some_iff.mp found).1
    exact unfit (addable.inRange integers (index + 1) inside)

theorem Breaks.unique {fault' : Fault} (breaks : Breaks first rest index fault)
    (breaks' : Breaks first rest index fault') : fault = fault' := by
  have summable : first.type = .int → Summable first.type := .inl
  cases breaks <;> cases breaks' <;> simp_all

/-- Only the type of the first argument, the breaking argument and the sum up to it play a part. -/
theorem Breaks.transfer {first' : Value φ} {rest' : List (Value φ)} {index' : Nat}
    (breaks : Breaks first rest index fault) (sameType : first'.type = first.type)
    (sameArgument : rest'[index']? = rest[index]?)
    (sameSum : exactSum (first' :: rest'.take (index' + 1)) =
      exactSum (first :: rest.take (index + 1))) : Breaks first' rest' index' fault := by
  cases breaks with
  | differs found unlike =>
    rw [← sameArgument] at found
    rw [← sameType] at unlike ⊢
    exact .differs found unlike
  | unsummable found alike unsummable =>
    rw [← sameArgument] at found
    rw [← sameType] at alike unsummable ⊢
    exact .unsummable found alike unsummable
  | leaves found alike integers unfit =>
    rw [← sameArgument] at found
    rw [← sameType] at alike integers
    rw [← sameSum] at unfit ⊢
    exact .leaves found alike integers unfit

theorem FirstBreak.unique {index' : Nat} {fault' : Fault}
    (breaks : FirstBreak first rest index fault) (breaks' : FirstBreak first rest index' fault') :
    fault = fault' := by
  have short : ¬index < index' := fun earlier => breaks'.least index earlier fault breaks.breaks
  have long : ¬index' < index := fun earlier => breaks.least index' earlier fault' breaks'.breaks
  obtain rfl : index = index' := by omega
  exact breaks.breaks.unique breaks'.breaks

/-! ## Two arguments -/

theorem plus_of_unlike (unlike : second.type ≠ first.type) :
    plus first second = .error (.wrongType first.type second.type) := by
  cases first <;> cases second <;> first | rfl | exact absurd rfl unlike

theorem plus_of_unsummable (alike : second.type = first.type) (unsummable : ¬Summable first.type) :
    plus first second = .error (.wrongType .int first.type) := by
  cases first <;> cases second <;> simp_all [Summable, Value.type, plus]

/-- Two arguments make up one of the same type that can stand for both in a sum. -/
structure Joins (first second joined : Value φ) : Prop where
  alike : second.type = first.type
  sameType : joined.type = first.type
  summable : Summable first.type
  exact_eq : joined.exact = first.exact + second.exact
  total : ∀ {rest : List (Value φ)} {result : Value φ}, Total (joined :: rest) result →
    Total (first :: second :: rest) result

theorem joins_integers {left right sum : Int64} (exact : sum.toInt = left.toInt + right.toInt) :
    Joins (.int left) (.int right) (.int sum : Value φ) := by
  refine ⟨rfl, rfl, .inl rfl, exact, ?_⟩
  intro rest result total
  cases total with
  | integers given exact' =>
    obtain ⟨_, others, rfl, ⟨⟩, rfl⟩ := List.map_eq_cons_iff.mp given.symm
    refine .integers (rfl : _ = (left :: right :: others).map Value.int) ?_
    simp only [exactSum, Value.exact] at exact' ⊢
    rw [exact', exact, Int.add_assoc]
  | texts given | lists given =>
    obtain ⟨_, _, _, ⟨⟩, _⟩ := List.map_eq_cons_iff.mp given.symm

theorem joins_texts (left right : String) :
    Joins (.text left) (.text right) (.text (left ++ right) : Value φ) := by
  refine ⟨rfl, rfl, .inr (.inl rfl), rfl, ?_⟩
  intro rest result total
  cases total with
  | texts given =>
    obtain ⟨_, others, rfl, ⟨⟩, rfl⟩ := List.map_eq_cons_iff.mp given.symm
    have apart : String.join ((left ++ right) :: others) =
        String.join (left :: right :: others) := by simp [← String.toList_inj]
    rw [apart]
    exact .texts rfl
  | integers given | lists given =>
    obtain ⟨_, _, _, ⟨⟩, _⟩ := List.map_eq_cons_iff.mp given.symm

theorem joins_lists (left right : List (Value φ)) :
    Joins (.list left) (.list right) (.list (left ++ right)) := by
  refine ⟨rfl, rfl, .inr (.inr rfl), rfl, ?_⟩
  intro rest result total
  cases total with
  | lists given =>
    obtain ⟨_, others, rfl, ⟨⟩, rfl⟩ := List.map_eq_cons_iff.mp given.symm
    have apart : ((left ++ right) :: others).flatten = (left :: right :: others).flatten := by
      simp
    rw [apart]
    exact .lists rfl
  | integers given | texts given =>
    obtain ⟨_, _, _, ⟨⟩, _⟩ := List.map_eq_cons_iff.mp given.symm

/-- Two arguments are joined, or the second one breaks the sum, whatever follows. -/
theorem plus_cases (first second : Value φ) :
    (∃ joined, plus first second = .ok joined ∧ Joins first second joined) ∨
      ∃ fault, plus first second = .error fault ∧
        ∀ rest, Breaks first (second :: rest) 0 fault := by
  by_cases alike : second.type = first.type
  case neg => exact .inr ⟨_, plus_of_unlike alike, fun rest => .differs rfl alike⟩
  by_cases summable : Summable first.type
  case neg =>
    exact .inr ⟨_, plus_of_unsummable alike summable, fun rest => .unsummable rfl alike summable⟩
  match first, second with
  | .int left, .int right =>
    by_cases fits : Fits (left.toInt + right.toInt)
    · refine .inl ⟨.int (Int64.ofInt (left.toInt + right.toInt)), ?_,
        joins_integers fits.toInt_ofInt⟩
      rw [plus, Arithmetic.checked_of_fits fits]
      rfl
    · have exact : ∀ rest : List (Value φ),
          exactSum (.int left :: (.int right :: rest).take 1) = left.toInt + right.toInt := by
        simp [exactSum, Value.exact]
      refine .inr ⟨.overflow (some (left.toInt + right.toInt)), ?_, ?_⟩
      · rw [plus, Arithmetic.checked_of_not_fits fits]
        rfl
      · intro rest
        rw [← exact rest] at fits ⊢
        exact .leaves rfl rfl rfl fits
  | .text left, .text right => exact .inl ⟨_, rfl, joins_texts left right⟩
  | .list left, .list right => exact .inl ⟨_, rfl, joins_lists left right⟩
  | .nil, _ | .bool _, _ | .function _, _ => simp [Summable, Value.type] at summable

/-! ## Any number of arguments -/

theorem fits_exact (value : Value φ) : Fits value.exact := by
  have zero : Fits 0 := by decide
  cases value with
  | int value => exact Arithmetic.fits_toInt value
  | nil | text | bool | list | function => exact zero

theorem exactSum_singleton (value : Value φ) : exactSum [value] = value.exact := by
  rw [exactSum, exactSum, Int.add_zero]

namespace Joins

variable (joins : Joins first second joined)
include joins

theorem exactSum_eq (rest : List (Value φ)) :
    exactSum (first :: second :: rest) = exactSum (joined :: rest) := by
  rw [exactSum, exactSum, exactSum, joins.exact_eq, Int.add_assoc]

theorem breaks_succ_iff :
    Breaks first (second :: rest) (index + 1) fault ↔ Breaks joined rest index fault := by
  have sums := joins.exactSum_eq (rest.take (index + 1))
  rw [← List.take_succ_cons] at sums
  constructor
  · intro breaks
    exact breaks.transfer joins.sameType rfl sums.symm
  · intro breaks
    exact breaks.transfer joins.sameType.symm rfl sums

theorem not_breaks_zero : ¬Breaks first (second :: rest) 0 fault := by
  intro breaks
  cases breaks with
  | differs found unlike =>
    cases found
    exact unlike joins.alike
  | unsummable _ _ unsummable => exact unsummable joins.summable
  | leaves _ _ _ unfit =>
    rw [List.take_succ_cons, joins.exactSum_eq, List.take_zero, exactSum_singleton] at unfit
    exact unfit (fits_exact joined)

theorem firstBreak (breaks : FirstBreak joined rest index fault) :
    FirstBreak first (second :: rest) (index + 1) fault := by
  refine ⟨joins.breaks_succ_iff.mpr breaks.breaks, ?_⟩
  intro earlier before fault' breaks'
  cases earlier with
  | zero => exact joins.not_breaks_zero breaks'
  | succ earlier =>
    exact breaks.least earlier (Nat.lt_of_succ_lt_succ before) fault'
      (joins.breaks_succ_iff.mp breaks')

theorem addable (others : Addable joined rest) : Addable first (second :: rest) := by
  refine ⟨List.forall_mem_cons.mpr ⟨joins.alike, ?_⟩, joins.summable, ?_⟩
  · intro argument member
    rw [others.alike argument member, joins.sameType]
  · intro integers count enough
    cases count with
    | zero =>
      rw [List.take_zero, exactSum_singleton]
      exact fits_exact first
    | succ count =>
      rw [← joins.sameType] at integers
      rw [List.take_succ_cons, joins.exactSum_eq]
      exact others.inRange integers count (Nat.le_of_succ_le_succ enough)

end Joins

/-- What a sum comes to: the total of its arguments, or the fault of the first one that breaks
it. -/
inductive Verdict (first : Value φ) (rest : List (Value φ)) : Except Fault (Value φ) → Prop where
  | sum {result : Value φ} (addable : Addable first rest) (total : Total (first :: rest) result) :
      Verdict first rest (.ok result)
  | fault {index : Nat} {fault : Fault} (breaks : FirstBreak first rest index fault) :
      Verdict first rest (.error fault)

theorem Joins.verdict {outcome : Except Fault (Value φ)} (joins : Joins first second joined)
    (verdict : Verdict joined rest outcome) : Verdict first (second :: rest) outcome := by
  cases verdict with
  | sum addable total => exact .sum (joins.addable addable) (joins.total total)
  | fault breaks => exact .fault (joins.firstBreak breaks)

theorem verdict_singleton (summable : Summable first.type) : Verdict first [] (.ok first) := by
  have addable : Addable first [] := by
    refine ⟨nofun, summable, ?_⟩
    intro _ count _
    rw [List.take_nil, exactSum_singleton]
    exact fits_exact first
  refine .sum addable ?_
  cases first with
  | int value =>
    exact .integers (rfl : _ = [value].map Value.int) (exactSum_singleton (.int value)).symm
  | text value =>
    have total : Total [.text value] (.text (String.join [value]) : Value φ) := .texts rfl
    have alone : String.join [value] = value := by simp
    rwa [alone] at total
  | list items =>
    have total : Total [.list items] (.list [items].flatten) := .lists rfl
    rwa [List.flatten_singleton] at total
  | nil | bool | function => simp [Summable, Value.type] at summable

theorem foldlM_verdict (summable : Summable first.type) :
    Verdict first rest (rest.foldlM plus first) := by
  induction rest generalizing first with
  | nil => exact verdict_singleton summable
  | cons second rest ih =>
    rw [List.foldlM_cons]
    rcases plus_cases first second with ⟨joined, added, joins⟩ | ⟨fault, failed, breaks⟩
    · rw [added]
      refine joins.verdict (ih ?_)
      rw [joins.sameType]
      exact summable
    · rw [failed]
      exact .fault ⟨breaks rest, nofun⟩

/-- A sum of two or more arguments is decided, whatever the type of the first one. -/
theorem add_verdict [Callee φ] (first second : Value φ) (others : List (Value φ)) :
    Verdict first (second :: others) (add.apply (first :: second :: others)) := by
  change Verdict first (second :: others) ((second :: others).foldlM plus first)
  by_cases summable : Summable first.type
  · exact foldlM_verdict summable
  · rw [List.foldlM_cons]
    rcases plus_cases first second with ⟨joined, -, joins⟩ | ⟨fault, failed, breaks⟩
    · exact absurd joins.summable summable
    · rw [failed]
      exact .fault ⟨breaks others, nofun⟩

/-- Addition is the left fold of its arguments.  It takes at least one, and gives back a single one
as it is.  Two or more are added up exactly if they can be, to their total; otherwise the first
argument that breaks the sum decides the fault. -/
theorem add_folds_from_left [Callee φ] :
    add.apply ([] : List (Value φ)) = .error (.wrongArity (.atLeast 1) 0) ∧
      (∀ argument : Value φ, add.apply [argument] = .ok argument) ∧
      ∀ (first second : Value φ) (others : List (Value φ)),
        ((∃ result, add.apply (first :: second :: others) = .ok result) ↔
          Addable first (second :: others)) ∧
        (∀ result, add.apply (first :: second :: others) = .ok result →
          Total (first :: second :: others) result) ∧
        (¬Addable first (second :: others) →
          ∃ index fault, FirstBreak first (second :: others) index fault) ∧
        ∀ index fault, FirstBreak first (second :: others) index fault →
          add.apply (first :: second :: others) = .error fault := by
  refine ⟨rfl, fun _ => rfl, ?_⟩
  intro first second others
  have verdict := add_verdict first second others
  generalize add.apply (first :: second :: others) = outcome at verdict
  cases verdict with
  | sum addable total =>
    refine ⟨⟨fun _ => addable, fun _ => ⟨_, rfl⟩⟩, ?_, fun broken => absurd addable broken, ?_⟩
    · rintro _ ⟨⟩
      exact total
    · intro index fault breaks
      exact absurd breaks.breaks addable.not_breaks
  | fault breaks =>
    refine ⟨⟨nofun, fun addable => absurd breaks.breaks addable.not_breaks⟩, nofun,
      fun _ => ⟨_, _, breaks⟩, ?_⟩
    intro index fault breaks'
    rw [breaks.unique breaks']

/-- The largest integer and one leave the range before the text behind them is looked at. -/
theorem add_folds_from_left_overflow :
    let first : Datum := .int 9223372036854775807
    let rest : List Datum := [.int 1, .text "behind"]
    FirstBreak first rest 0 (.overflow (some 9223372036854775808)) ∧
      add.apply (first :: rest) = .error (.overflow (some 9223372036854775808)) := by
  intro first rest
  have breaks : FirstBreak first rest 0 (.overflow (some 9223372036854775808)) :=
    ⟨.leaves rfl rfl rfl (by decide), nofun⟩
  exact ⟨breaks, (add_folds_from_left.2.2 first _ _).2.2.2 0 _ breaks⟩

end Builtin

end MiniLisp
